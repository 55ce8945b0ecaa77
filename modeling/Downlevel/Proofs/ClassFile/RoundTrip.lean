/-
# Downlevel.Proofs.ClassFile.RoundTrip — reading and writing class files are inverse

`Fits` says of each part of a class file that it stays within the limits of the format:
counts below 2^16, text below 2^16 bytes, attributes below 2^32 bytes, and every
constant of two slots followed by an empty one (`Pool.Shaped`). Writing loses nothing
of a class file that fits (`parse_write`), and only those are ever read
(`parse_eq_ok`).

One byte string is not what writing gives back: a pool count of 0 is read like a count
of 1. `Pool.WrittenAs` allows for both, and they have the same length, so the length of
a class file that was read is the length of what is written for it
(`length_write_of_parse`). In every other byte the two agree (`write_of_parse`).
-/
import Downlevel.ClassFile.Reader
import Downlevel.ClassFile.Writer
import Downlevel.Proofs.Codec

namespace Downlevel

set_option autoImplicit false

open Reader

/-! ## Constants -/

namespace Constant

/-- Text is stored with a 16-bit length. -/
def Fits : Constant → Prop
  | utf8 bytes => bytes.length < 65536
  | _ => True

/-- The byte that announces a kind of constant. -/
def Tag.byte : Tag → UInt8
  | utf8 => 1
  | integer => 3
  | float => 4
  | long => 5
  | double => 6
  | classRef => 7
  | string => 8
  | fieldRef => 9
  | methodRef => 10
  | interfaceMethodRef => 11
  | nameAndType => 12
  | methodHandle => 15
  | methodType => 16
  | dynamic => 17
  | invokeDynamic => 18
  | module => 19
  | package => 20

theorem Tag.ofByte?_eq_some {byte : UInt8} {tag : Tag} :
    Tag.ofByte? byte = some tag ↔ byte = tag.byte := by
  constructor
  · intro announced
    unfold Tag.ofByte? at announced
    split at announced <;> cases announced <;> rfl
  · rintro rfl
    cases tag <;> rfl

theorem read_eq_ok {input rest : Bytes} {constant : Constant} :
    Constant.read input = .ok (constant, rest) ↔
      ∃ tag body, input = Tag.byte tag :: body ∧ readBody tag body = .ok (constant, rest) := by
  constructor
  · intro read
    cases input with
    | nil => cases read
    | cons byte body =>
        simp only [Constant.read] at read
        cases announced : Tag.ofByte? byte with
        | none =>
            rw [announced] at read
            cases read
        | some tag =>
            rw [announced] at read
            rw [Tag.ofByte?_eq_some.mp announced]
            exact ⟨tag, body, rfl, read⟩
  · rintro ⟨tag, body, rfl, read⟩
    simp only [Constant.read, Tag.ofByte?_eq_some.mpr rfl]
    exact read

theorem write_of_readBody {input rest : Bytes} {tag : Tag} {constant : Constant}
    (read : readBody tag input = .ok (constant, rest)) :
    constant.Fits ∧ tag.byte :: input = constant.write ++ rest := by
  cases tag with
  | utf8 =>
      simp only [readBody, bind_eq_ok, pure_eq_ok, u16_eq_ok, take_eq_ok] at read
      obtain ⟨length, _, rfl, text, _, ⟨textLength, rfl⟩, rfl, rfl⟩ := read
      have bound := length.toNat_lt
      refine ⟨by simpa only [Fits, textLength] using bound, ?_⟩
      simp only [write, Tag.byte, textLength, UInt16.ofNat_toNat, List.cons_append,
        List.append_assoc]
  | integer | float | long | double | classRef | string | methodType | module | package =>
      simp only [readBody, bind_eq_ok, pure_eq_ok, u16_eq_ok, u32_eq_ok, u64_eq_ok] at read
      obtain ⟨_, _, rfl, rfl, rfl⟩ := read
      exact ⟨trivial, by simp [write, Tag.byte]⟩
  | fieldRef | methodRef | interfaceMethodRef | nameAndType | methodHandle | dynamic
    | invokeDynamic =>
      simp only [readBody, bind_eq_ok, pure_eq_ok, u8_eq_ok, u16_eq_ok] at read
      obtain ⟨_, _, rfl, _, _, rfl, rfl, rfl⟩ := read
      exact ⟨trivial, by simp [write, Tag.byte]⟩

section Parts

variable {α β : Type} {first : Reader α} {second : Reader β} {writeFirst : α → Bytes}
  {writeSecond : β → Bytes}

/-- A record of one part is read back from the part's written form. -/
theorem one_part (inverts : Inverts first writeFirst fun _ => True) (make : α → Constant)
    (a : α) (rest : Bytes) :
    (do return make (← first) : Reader Constant) (writeFirst a ++ rest) = .ok (make a, rest) := by
  rw [bind_eq_ok]
  exact ⟨a, rest, inverts.read_write trivial rest, rfl⟩

/-- A record of two parts is read back from the parts' written forms in a row. -/
theorem two_parts (inverts : Inverts first writeFirst fun _ => True)
    (inverts' : Inverts second writeSecond fun _ => True) (make : α → β → Constant)
    (a : α) (b : β) (rest : Bytes) :
    (do return make (← first) (← second) : Reader Constant)
      ((writeFirst a ++ writeSecond b) ++ rest) = .ok (make a b, rest) := by
  rw [List.append_assoc, bind_eq_ok]
  refine ⟨a, writeSecond b ++ rest, inverts.read_write trivial _, ?_⟩
  exact one_part inverts' (make a) b rest

end Parts

theorem readBody_write (rest : Bytes) {constant : Constant} (fits : constant.Fits) :
    ∃ tag body, constant.write = Tag.byte tag :: body ∧
      readBody tag (body ++ rest) = .ok (constant, rest) := by
  cases constant with
  | utf8 bytes =>
      have bound : bytes.length < 65536 := fits
      refine ⟨.utf8, _, rfl, ?_⟩
      simp only [readBody, bind_eq_ok, pure_eq_ok, u16_eq_ok, take_eq_ok, List.append_assoc]
      refine ⟨UInt16.ofNat bytes.length, bytes ++ rest, rfl, bytes, rest, ⟨?_, rfl⟩, rfl, rfl⟩
      rw [UInt16.toNat_ofNat']
      omega
  | integer value =>
      have read := one_part u32_inverts (fun w => integer w.toInt32) value.toUInt32 rest
      rw [Int32.toInt32_toUInt32] at read
      exact ⟨.integer, _, rfl, read⟩
  | float bits => exact ⟨.float, _, rfl, one_part u32_inverts float bits rest⟩
  | long value =>
      have read := one_part u64_inverts (fun w => long w.toInt64) value.toUInt64 rest
      rw [Int64.toInt64_toUInt64] at read
      exact ⟨.long, _, rfl, read⟩
  | double bits => exact ⟨.double, _, rfl, one_part u64_inverts double bits rest⟩
  | classRef name => exact ⟨.classRef, _, rfl, one_part u16_inverts classRef name rest⟩
  | string text => exact ⟨.string, _, rfl, one_part u16_inverts string text rest⟩
  | fieldRef owner signature =>
      exact ⟨.fieldRef, _, rfl, two_parts u16_inverts u16_inverts fieldRef owner signature rest⟩
  | methodRef owner signature =>
      exact ⟨.methodRef, _, rfl, two_parts u16_inverts u16_inverts methodRef owner signature rest⟩
  | interfaceMethodRef owner signature =>
      exact ⟨.interfaceMethodRef, _, rfl,
        two_parts u16_inverts u16_inverts interfaceMethodRef owner signature rest⟩
  | nameAndType name descriptor =>
      exact ⟨.nameAndType, _, rfl,
        two_parts u16_inverts u16_inverts nameAndType name descriptor rest⟩
  | methodHandle kind reference =>
      exact ⟨.methodHandle, _, rfl,
        two_parts u8_inverts u16_inverts methodHandle kind reference rest⟩
  | methodType descriptor =>
      exact ⟨.methodType, _, rfl, one_part u16_inverts methodType descriptor rest⟩
  | dynamic bootstrap signature =>
      exact ⟨.dynamic, _, rfl, two_parts u16_inverts u16_inverts dynamic bootstrap signature rest⟩
  | invokeDynamic bootstrap signature =>
      exact ⟨.invokeDynamic, _, rfl,
        two_parts u16_inverts u16_inverts invokeDynamic bootstrap signature rest⟩
  | module name => exact ⟨.module, _, rfl, one_part u16_inverts module name rest⟩
  | package name => exact ⟨.package, _, rfl, one_part u16_inverts package name rest⟩

theorem read_inverts : Inverts Constant.read write Fits := by
  intro input constant rest
  rw [read_eq_ok]
  constructor
  · rintro ⟨tag, body, rfl, read⟩
    exact write_of_readBody read
  · rintro ⟨fits, rfl⟩
    obtain ⟨tag, body, written, read⟩ := readBody_write rest fits
    refine ⟨tag, body ++ rest, ?_, read⟩
    rw [written, List.cons_append]

end Constant

/-! ## Pools -/

namespace Pool

/-- Slots in which every constant fits, each constant of two slots is followed by an empty
one, and no other slot is empty. -/
inductive Shaped : List (Option Constant) → Prop where
  | nil : Shaped []
  | narrow {constant : Constant} {slots : List (Option Constant)} (fits : constant.Fits)
      (narrow : constant.isWide = false) (rest : Shaped slots) : Shaped (some constant :: slots)
  | wide {constant : Constant} {slots : List (Option Constant)} (fits : constant.Fits)
      (wide : constant.isWide = true) (rest : Shaped slots) :
      Shaped (some constant :: none :: slots)

theorem Shaped.append {slots others : List (Option Constant)} (shaped : Shaped slots)
    (shaped' : Shaped others) : Shaped (slots ++ others) := by
  induction shaped with
  | nil => exact shaped'
  | narrow fits narrow _ ih => exact .narrow fits narrow ih
  | wide fits wide _ ih => exact .wide fits wide ih

structure Fits (pool : Pool) : Prop where
  shaped : Shaped pool.slots.toList
  bounded : pool.slots.size ≤ capacity

theorem count_ne_zero {pool : Pool} (fits : pool.Fits) : pool.count ≠ 0 := by
  have bounded := fits.bounded
  intro zero
  have zeroNat : pool.count.toNat = 0 := by rw [zero]; rfl
  simp only [count, UInt16.toNat_ofNat', capacity] at zeroNat bounded
  omega

/-- Filling slots onto `slots` appends a shaped run of slots, read off its written form. -/
theorem readSlots_eq_ok {n : Nat} {slots : Array (Option Constant)} {input rest : Bytes}
    {pool : Pool} :
    readSlots n slots input = .ok (pool, rest) ↔
      ∃ more, Shaped more ∧ more.length = n ∧ pool.slots.toList = slots.toList ++ more ∧
        input = more.flatMap writeSlot ++ rest := by
  -- A wide constant fills two slots, so the induction goes two steps back there.
  induction n using Nat.strongRecOn generalizing slots input with
  | _ n ih =>
      cases n with
      | zero =>
          rw [readSlots]
          constructor
          · intro read
            cases read
            exact ⟨[], .nil, rfl, by simp, rfl⟩
          · rintro ⟨more, -, empty, same, rfl⟩
            rw [List.length_eq_zero_iff.mp empty, List.append_nil] at same
            rw [List.length_eq_zero_iff.mp empty, Array.toList_inj.mp same.symm]
            rfl
      | succ n =>
          rw [readSlots]
          constructor
          · intro read
            cases first : Constant.read input with
            | error fault =>
                rw [first] at read
                cases read
            | ok result =>
                obtain ⟨constant, middle⟩ := result
                rw [first] at read
                have fits := Constant.read_inverts.fits_read first
                have written := Constant.read_inverts.write_read first
                simp only at read
                by_cases wide : constant.isWide = true
                · rw [if_pos wide] at read
                  cases n with
                  | zero => cases read
                  | succ m =>
                      obtain ⟨more, shaped, length, same, rfl⟩ := (ih m (by omega)).mp read
                      refine ⟨some constant :: none :: more, .wide fits wide shaped,
                        by simp [length], by simp [same], ?_⟩
                      simp [written, writeSlot]
                · rw [if_neg wide] at read
                  obtain ⟨more, shaped, length, same, rfl⟩ := (ih n (by omega)).mp read
                  refine ⟨some constant :: more, .narrow fits (by simpa using wide) shaped,
                    by simp [length], by simp [same], ?_⟩
                  simp [written, writeSlot]
          · rintro ⟨more, shaped, length, same, rfl⟩
            cases shaped with
            | nil => cases length
            | @narrow constant more fits narrow shaped =>
                rw [List.flatMap_cons, List.append_assoc, writeSlot,
                  Constant.read_inverts.read_write fits]
                simp only [narrow, Bool.false_eq_true, if_false]
                apply (ih n (by omega)).mpr
                exact ⟨more, shaped, by simpa using length, by simp [same], rfl⟩
            | @wide constant more fits wide shaped =>
                rw [List.flatMap_cons, List.append_assoc, writeSlot,
                  Constant.read_inverts.read_write fits]
                simp only [wide, if_true]
                cases n with
                | zero => simp at length
                | succ m =>
                    apply (ih m (by omega)).mpr
                    exact ⟨more, shaped, by simpa using length, by simp [same], rfl⟩

/-- The byte strings that are read as `pool`: its written form and, for a pool without
slots, also a count of 0. -/
def WrittenAs (pool : Pool) (bytes : Bytes) : Prop :=
  bytes = pool.write ∨ pool.slots = #[] ∧ bytes = be16 0

theorem writtenAs_write (pool : Pool) : pool.WrittenAs pool.write :=
  .inl rfl

theorem WrittenAs.length {pool : Pool} {bytes : Bytes} (written : pool.WrittenAs bytes) :
    bytes.length = pool.write.length := by
  rcases written with rfl | ⟨empty, rfl⟩
  · rfl
  · simp [write, empty]

theorem read_eq_ok {input rest : Bytes} {pool : Pool} :
    Pool.read input = .ok (pool, rest) ↔
      pool.Fits ∧ ∃ bytes, pool.WrittenAs bytes ∧ input = bytes ++ rest := by
  unfold Pool.read
  rw [bind_eq_ok]
  constructor
  · rintro ⟨count, middle, counted, read⟩
    obtain ⟨more, shaped, length, same, rfl⟩ := readSlots_eq_ok.mp read
    have bound := count.toNat_lt
    have slots : pool.slots.toList = more := by simpa using same
    have size : pool.slots.size = count.toNat - 1 := by
      rw [← Array.length_toList, slots, length]
    refine ⟨⟨by rw [slots]; exact shaped, by rw [size, capacity]; omega⟩,
      be16 count ++ more.flatMap writeSlot, ?_, by rw [u16_eq_ok.mp counted, List.append_assoc]⟩
    by_cases zero : count.toNat = 0
    · right
      have empty : more = [] := List.length_eq_zero_iff.mp (by omega)
      refine ⟨Array.toList_eq_nil_iff.mp (slots.trans empty), ?_⟩
      rw [empty, UInt16.toNat_inj.mp (zero.trans UInt16.toNat_zero.symm)]
      rfl
    · left
      have stated : pool.count = count := by
        apply UInt16.toNat_inj.mp
        rw [Pool.count, UInt16.toNat_ofNat', size]
        omega
      rw [write, stated, slots]
  · rintro ⟨fits, bytes, written | ⟨empty, written⟩, rfl⟩
    · have bounded := fits.bounded
      refine ⟨pool.count, pool.slots.toList.flatMap writeSlot ++ rest, ?_, ?_⟩
      · rw [u16_eq_ok, written, write, List.append_assoc]
      · apply readSlots_eq_ok.mpr
        refine ⟨pool.slots.toList, fits.shaped, ?_, by simp, rfl⟩
        rw [Pool.count, UInt16.toNat_ofNat', Array.length_toList]
        rw [capacity] at bounded
        omega
    · refine ⟨0, rest, by rw [u16_eq_ok, written], ?_⟩
      apply readSlots_eq_ok.mpr
      exact ⟨[], .nil, rfl, by simp [empty], rfl⟩

end Pool

/-! ## Attributes and members -/

namespace Attribute

/-- The contents are stored with a 32-bit length. -/
def Fits (a : Attribute) : Prop :=
  a.info.length < 4294967296

theorem read_inverts : Inverts Attribute.read Attribute.write Fits := by
  intro input a rest
  simp only [Attribute.read, bind_eq_ok, pure_eq_ok, u16_eq_ok, u32_eq_ok, take_eq_ok]
  constructor
  · rintro ⟨name, _, rfl, length, _, rfl, info, _, ⟨infoLength, rfl⟩, rfl, rfl⟩
    have bound := length.toNat_lt
    refine ⟨by simpa only [Fits, infoLength] using bound, ?_⟩
    simp only [Attribute.write, infoLength, UInt32.ofNat_toNat, List.append_assoc]
  · rintro ⟨fits, rfl⟩
    have bound : a.info.length < 4294967296 := fits
    refine ⟨a.name, _, by rw [Attribute.write, List.append_assoc], UInt32.ofNat a.info.length, _,
      by rw [List.append_assoc], a.info, rest, ⟨?_, rfl⟩, rfl, rfl⟩
    rw [UInt32.toNat_ofNat']
    omega

end Attribute

/-- A table of attributes within the limits of the format. -/
def Attribute.TableFits (attributes : List Attribute) : Prop :=
  attributes.length < 65536 ∧ ∀ a ∈ attributes, a.Fits

namespace Attribute.TableFits

variable {attributes : List Attribute} (fits : Attribute.TableFits attributes)
include fits

theorem filter (keep : Attribute → Bool) : Attribute.TableFits (attributes.filter keep) :=
  ⟨Nat.lt_of_le_of_lt (List.length_filter_le _ _) fits.1,
    fun a member => fits.2 a (List.mem_filter.mp member).1⟩

theorem set (n : Nat) {a : Attribute} (each : a.Fits) :
    Attribute.TableFits (attributes.set n a) := by
  refine ⟨by rw [List.length_set]; exact fits.1, fun b member => ?_⟩
  rcases List.mem_or_eq_of_mem_set member with member | rfl
  · exact fits.2 b member
  · exact each

end Attribute.TableFits

namespace Member

def Fits (m : Member) : Prop :=
  Attribute.TableFits m.attributes

theorem read_inverts : Inverts Member.read Member.write Fits := by
  intro input m rest
  simp only [Member.read, bind_eq_ok, pure_eq_ok, u16_eq_ok,
    table_inverts Attribute.read_inverts _ _ _]
  constructor
  · rintro ⟨access, _, rfl, name, _, rfl, descriptor, _, rfl, attributes, _, ⟨fits, rfl⟩, rfl, rfl⟩
    exact ⟨fits, by simp only [Member.write, List.append_assoc]⟩
  · rintro ⟨fits, rfl⟩
    exact ⟨m.access, _, by rw [Member.write, List.append_assoc], m.name, _,
      by rw [List.append_assoc], m.descriptor, _, by rw [List.append_assoc], m.attributes, rest,
      ⟨fits, rfl⟩, rfl, rfl⟩

end Member

/-! ## Class files -/

namespace ClassFile

structure Fits (c : ClassFile) : Prop where
  pool : c.pool.Fits
  interfaces : c.interfaces.length < 65536
  fields : c.fields.length < 65536 ∧ ∀ m ∈ c.fields, m.Fits
  methods : c.methods.length < 65536 ∧ ∀ m ∈ c.methods, m.Fits
  attributes : Attribute.TableFits c.attributes

/-- The classes agree in what is never touched. The version, the pool, the methods and the
attributes are left open. -/
structure SameFrame (c c' : ClassFile) : Prop where
  access : c'.access = c.access
  thisClass : c'.thisClass = c.thisClass
  superClass : c'.superClass = c.superClass
  interfaces : c'.interfaces = c.interfaces
  fields : c'.fields = c.fields

/-- Only what is left open has to be within the limits again. -/
theorem Fits.of_sameFrame {c c' : ClassFile} (fits : c.Fits) (same : c.SameFrame c')
    (pool : c'.pool.Fits) (methods : c'.methods.length < 65536 ∧ ∀ m ∈ c'.methods, m.Fits)
    (attributes : Attribute.TableFits c'.attributes) : c'.Fits := by
  refine ⟨pool, ?_, ?_, methods, attributes⟩
  · rw [same.interfaces]
    exact fits.interfaces
  · rw [same.fields]
    exact fits.fields

/-- The written form of a class file, given that of its pool. -/
def written (c : ClassFile) (pool : Bytes) : Bytes :=
  [magic, be16 c.version.minor, be16 c.version.major, pool, be16 c.access,
    be16 c.thisClass, be16 c.superClass, writeTable be16 c.interfaces,
    writeTable Member.write c.fields, writeTable Member.write c.methods,
    writeTable Attribute.write c.attributes].flatten

theorem write_eq_written (c : ClassFile) : c.write = c.written c.pool.write := rfl

theorem readMagic_eq_ok {input rest : Bytes} {u : Unit} :
    readMagic input = .ok (u, rest) ↔ input = magic ++ rest := by
  constructor
  · intro read
    unfold readMagic at read
    split at read
    · cases read
      rfl
    · cases read
  · rintro rfl
    rfl

theorem read_eq_ok {input rest : Bytes} {c : ClassFile} :
    ClassFile.read input = .ok (c, rest) ↔
      c.Fits ∧ ∃ pool, c.pool.WrittenAs pool ∧ input = c.written pool ++ rest := by
  simp only [ClassFile.read, bind_eq_ok, pure_eq_ok, u16_eq_ok, readMagic_eq_ok,
    Pool.read_eq_ok, table_inverts u16_inverts _ _ _, table_inverts Member.read_inverts _ _ _,
    table_inverts Attribute.read_inverts _ _ _]
  constructor
  · rintro ⟨⟨⟩, _, rfl, minor, _, rfl, major, _, rfl, pool, _, ⟨poolFits, bytes, written, rfl⟩,
      access, _, rfl, thisClass, _, rfl, superClass, _, rfl, interfaces, _, ⟨interfacesFit, rfl⟩,
      fields, _, ⟨fieldsFit, rfl⟩, methods, _, ⟨methodsFit, rfl⟩, attributes, _,
      ⟨attributesFit, rfl⟩, rfl, rfl⟩
    refine ⟨⟨poolFits, interfacesFit.1, fieldsFit, methodsFit, attributesFit⟩, bytes, written, ?_⟩
    simp [ClassFile.written]
  · rintro ⟨fits, bytes, written, rfl⟩
    refine ⟨(), _, by simp only [ClassFile.written, List.flatten_cons, List.append_assoc]; rfl,
      c.version.minor, _, rfl, c.version.major, _, rfl, c.pool, _,
      ⟨fits.pool, bytes, written, rfl⟩, c.access, _, rfl, c.thisClass, _, rfl, c.superClass, _,
      rfl, c.interfaces, _, ⟨⟨fits.interfaces, by simp⟩, rfl⟩, c.fields, _, ⟨fits.fields, rfl⟩,
      c.methods, _, ⟨fits.methods, rfl⟩, c.attributes, rest, ⟨fits.attributes, ?_⟩, rfl, rfl⟩
    rw [List.flatten_nil, List.nil_append]

/-- A byte string is read as a class file exactly if it is a written form of one that fits. -/
theorem parse_eq_ok {bytes : Bytes} {c : ClassFile} :
    parse bytes = .ok c ↔
      c.Fits ∧ ∃ pool, c.pool.WrittenAs pool ∧ bytes = c.written pool := by
  have read : ClassFile.read bytes = .ok (c, []) ↔
      c.Fits ∧ ∃ pool, c.pool.WrittenAs pool ∧ bytes = c.written pool := by
    simp only [read_eq_ok, List.append_nil]
  rw [← read]
  unfold parse
  cases whole : Reader.whole ClassFile.read bytes with
  | error fault =>
      constructor
      · intro impossible
        cases impossible
      · intro read
        rw [whole_eq_ok.mpr ⟨read, rfl⟩] at whole
        cases whole
  | ok result =>
      obtain ⟨c', rest⟩ := result
      obtain ⟨read, rfl⟩ := whole_eq_ok.mp whole
      rw [read]
      simp

theorem parse_write {c : ClassFile} (fits : c.Fits) : parse c.write = .ok c :=
  parse_eq_ok.mpr ⟨fits, _, c.pool.writtenAs_write, rfl⟩

theorem fits_of_parse {bytes : Bytes} {c : ClassFile} (parsed : parse bytes = .ok c) : c.Fits :=
  (parse_eq_ok.mp parsed).1

theorem length_write_of_parse {bytes : Bytes} {c : ClassFile} (parsed : parse bytes = .ok c) :
    c.write.length = bytes.length := by
  obtain ⟨-, pool, written, rfl⟩ := parse_eq_ok.mp parsed
  simp only [write_eq_written, ClassFile.written, List.flatten_cons, List.length_append,
    written.length]

/-- What a method's attributes hold is no longer than the class file. -/
theorem info_length_le_write {c : ClassFile} {m : Member} {a : Attribute} (method : m ∈ c.methods)
    (held : a ∈ m.attributes) : a.info.length ≤ c.write.length := by
  have inAttribute : a.info.length ≤ a.write.length := by
    simp only [Attribute.write, List.length_append]
    omega
  have inMember : a.write.length ≤ m.write.length := by
    have inTable := List.Sublist.length_le
      (List.sublist_flatten_of_mem (List.mem_map_of_mem (f := Attribute.write) held))
    rw [← List.flatMap_def] at inTable
    simp only [Member.write, writeTable, List.length_append]
    omega
  have inClass : m.write.length ≤ c.write.length := by
    have inTable := List.Sublist.length_le
      (List.sublist_flatten_of_mem (List.mem_map_of_mem (f := Member.write) method))
    rw [← List.flatMap_def] at inTable
    simp only [ClassFile.write, writeTable, List.flatten_cons, List.length_append]
    omega
  omega

/-! ## The two directions -/

/-- The pool stands behind eight bytes, and nothing around it depends on how it is written. -/
theorem exists_written_eq (c : ClassFile) :
    ∃ front back : Bytes, front.length = 8 ∧ ∀ pool, c.written pool = front ++ (pool ++ back) := by
  refine ⟨magic ++ (be16 c.version.minor ++ be16 c.version.major), [be16 c.access,
    be16 c.thisClass, be16 c.superClass, writeTable be16 c.interfaces,
    writeTable Member.write c.fields, writeTable Member.write c.methods,
    writeTable Attribute.write c.attributes].flatten, rfl, fun pool => ?_⟩
  simp only [written, List.flatten_cons, List.append_assoc]

/-- Writing gives back the bytes that were read, except that a pool count of 0 becomes 1. -/
theorem write_of_parse {bytes : Bytes} {c : ClassFile} (parsed : parse bytes = .ok c) :
    ∃ front count back, bytes = front ++ (be16 count ++ back) ∧ front.length = 8 ∧
      (count ≠ 0 → c.write = bytes) ∧ (count = 0 → c.write = front ++ (be16 1 ++ back)) := by
  obtain ⟨fits, pool, written, rfl⟩ := parse_eq_ok.mp parsed
  obtain ⟨front, back, eight, around⟩ := c.exists_written_eq
  rw [write_eq_written, around, around]
  rcases written with rfl | ⟨empty, rfl⟩
  · refine ⟨front, c.pool.count, c.pool.slots.toList.flatMap Pool.writeSlot ++ back, ?_, eight,
      ?_, ?_⟩
    · simp only [Pool.write, List.append_assoc]
    · intro _
      rfl
    · intro zero
      exact absurd zero (Pool.count_ne_zero fits.pool)
  · refine ⟨front, 0, back, rfl, eight, ?_, ?_⟩
    · intro nonzero
      exact absurd rfl nonzero
    · intro _
      have one : c.pool.write = be16 1 := by simp [Pool.write, Pool.count, empty]
      rw [one]

/-- Reading and writing are inverse. What is read fits the format, and writing it gives back
the bytes, except that a pool count of 0 becomes 1; and every class file that fits is read
back from what is written for it. -/
theorem parse_write_inverse (bytes : Bytes) (c : ClassFile) :
    (parse bytes = .ok c → c.Fits ∧ ∃ front count back,
      bytes = front ++ (be16 count ++ back) ∧ front.length = 8 ∧
      (count ≠ 0 → c.write = bytes) ∧ (count = 0 → c.write = front ++ (be16 1 ++ back))) ∧
    (c.Fits → parse c.write = .ok c) :=
  ⟨fun parsed => ⟨fits_of_parse parsed, write_of_parse parsed⟩, parse_write⟩

/-- A class file whose pool count is stated as 0, and one with a constant of two slots. -/
theorem parse_write_inverse_uncounted :
    let uncounted : Bytes := [0xCA, 0xFE, 0xBA, 0xBE, 0, 0, 0, 52, 0, 0, 0, 0x21] ++
      List.replicate 12 0
    let empty : ClassFile := ⟨⟨52, 0⟩, ⟨#[]⟩, 0x21, 0, 0, [], [], [], []⟩
    let wide : ClassFile := ⟨⟨52, 0⟩, ⟨#[some (.utf8 [0x41]), some (.long (-2)), none]⟩, 0x21, 0, 0,
      [2], [⟨8, 1, 1, [⟨1, [0, 2]⟩]⟩], [], []⟩
    parse uncounted = .ok empty ∧ (empty.Fits ∧ ∃ front count back,
      uncounted = front ++ (be16 count ++ back) ∧ front.length = 8 ∧
      (count ≠ 0 → empty.write = uncounted) ∧
      (count = 0 → empty.write = front ++ (be16 1 ++ back))) ∧
    wide.Fits ∧ parse wide.write = .ok wide := by
  intro uncounted empty wide
  have parsed : parse uncounted = .ok empty := rfl
  have shaped : Pool.Shaped [some (.utf8 [0x41]), some (.long (-2)), none] :=
    .narrow (by decide : 1 < 65536) rfl (.wide trivial rfl .nil)
  have tabled : Attribute.TableFits [⟨1, [0, 2]⟩] := by
    refine ⟨by decide, fun a member => ?_⟩
    rw [List.mem_singleton.mp member]
    exact (by decide : 2 < 4294967296)
  have fields : ∀ m ∈ wide.fields, m.Fits := by
    intro m member
    rw [List.mem_singleton.mp member]
    exact tabled
  have fits : wide.Fits :=
    ⟨⟨shaped, by decide⟩, by decide, ⟨by decide, fields⟩, ⟨by decide, nofun⟩, ⟨by decide, nofun⟩⟩
  exact ⟨parsed, (parse_write_inverse uncounted empty).1 parsed, fits,
    (parse_write_inverse wide.write wide).2 fits⟩

end ClassFile

end Downlevel
