/-
# Downlevel.Proofs.Code.Body — reading and writing method bodies are inverse

The contents of a body's attribute, and of every attribute that is read as a whole, are
the written form of what is read from them (`readAttribute_eq_ok`, `Body.parse_eq_ok`).
-/
import Downlevel.Code.Body
import Downlevel.Proofs.ClassFile.RoundTrip

namespace Downlevel

set_option autoImplicit false

open Reader

theorem readAttribute_iff_read {α : Type} {name : String} {r : Reader α} {info : Bytes} {a : α} :
    readAttribute name r info = .ok a ↔ r info = .ok (a, []) := by
  unfold readAttribute
  cases whole : Reader.whole r info with
  | error fault =>
      constructor
      · intro impossible
        cases impossible
      · intro read
        rw [whole_eq_ok.mpr ⟨read, rfl⟩] at whole
        cases whole
  | ok result =>
      obtain ⟨a', rest⟩ := result
      obtain ⟨read, rfl⟩ := whole_eq_ok.mp whole
      rw [read]
      simp

theorem readAttribute_eq_ok {α : Type} {name : String} {r : Reader α} {write : α → Bytes}
    {Fits : α → Prop} (inverts : Inverts r write Fits) {info : Bytes} {a : α} :
    readAttribute name r info = .ok a ↔ Fits a ∧ info = write a := by
  rw [readAttribute_iff_read, inverts info a [], List.append_nil]

namespace Handler

theorem read_inverts : Inverts Handler.read Handler.write fun _ => True := by
  intro input h rest
  simp only [Handler.read, bind_eq_ok, pure_eq_ok, u16_eq_ok]
  constructor
  · rintro ⟨start, _, rfl, stop, _, rfl, target, _, rfl, catchType, _, rfl, rfl, rfl⟩
    exact ⟨trivial, by simp only [Handler.write, List.append_assoc]⟩
  · rintro ⟨-, rfl⟩
    exact ⟨h.start, _, by rw [Handler.write, List.append_assoc], h.stop, _,
      by rw [List.append_assoc], h.target, _, by rw [List.append_assoc], h.catchType, rest, rfl,
      rfl, rfl⟩

@[simp] theorem length_write (h : Handler) : h.write.length = 8 := rfl

end Handler

namespace Body

structure Fits (b : Body) : Prop where
  code : b.code.length < 4294967296
  handlers : b.handlers.length < 65536
  attributes : Attribute.TableFits b.attributes

theorem read_inverts : Inverts Body.read Body.write Fits := by
  intro input b rest
  simp only [Body.read, bind_eq_ok, pure_eq_ok, u16_eq_ok, u32_eq_ok, take_eq_ok,
    table_inverts Handler.read_inverts _ _ _, table_inverts Attribute.read_inverts _ _ _]
  constructor
  · rintro ⟨maxStack, _, rfl, maxLocals, _, rfl, length, _, rfl, code, _, ⟨codeLength, rfl⟩,
      handlers, _, ⟨handlersFit, rfl⟩, attributes, _, ⟨attributesFit, rfl⟩, rfl, rfl⟩
    have bound := length.toNat_lt
    refine ⟨⟨by simpa only [codeLength] using bound, handlersFit.1, attributesFit⟩, ?_⟩
    simp [Body.write, codeLength]
  · rintro ⟨fits, rfl⟩
    have bound := fits.code
    refine ⟨b.maxStack, _, by simp only [Body.write, List.flatten_cons, List.append_assoc]; rfl,
      b.maxLocals, _, rfl, UInt32.ofNat b.code.length, _, rfl, b.code, _, ⟨?_, rfl⟩, b.handlers, _,
      ⟨⟨fits.handlers, fun _ _ => trivial⟩, rfl⟩, b.attributes, rest, ⟨fits.attributes, ?_⟩, rfl,
      rfl⟩
    · rw [UInt32.toNat_ofNat']
      omega
    · rw [List.flatten_nil, List.nil_append]

theorem parse_eq_ok {info : Bytes} {b : Body} :
    Body.parse info = .ok b ↔ b.Fits ∧ info = b.write :=
  readAttribute_eq_ok read_inverts

theorem parse_write {b : Body} (fits : b.Fits) : Body.parse b.write = .ok b :=
  parse_eq_ok.mpr ⟨fits, rfl⟩

end Body

end Downlevel
