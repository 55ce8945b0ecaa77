/-
# Downlevel.Proofs.ClassFile.Truncation — input that ends early or goes on

A reader that goes forward learns nothing from what lies behind the place where it stopped: on
the same input with more behind it, it reads the same value or refuses at the same place, unless
it had run out of input (`Lengthens`). What it leaves unread is always the end of its input.
Both go through sequences, runs and tables, down to the class file (`ClassFile.forwardIn_read`).

An accepted file is therefore accepted at no other length. With more behind it, the parser stops
where the file ended (`ClassFile.stopsAt_end`), and any part of it from the front is read until
it runs out (`ClassFile.stopsAt_of_cut`).
-/
import Downlevel.Proofs.ClassFile.RoundTrip

namespace Downlevel

set_option autoImplicit false

namespace Reader

variable {α β : Type}

/-! ## Going forward -/

/-- What a reader makes of an input, and of the same input with more behind it. -/
inductive Lengthens (input more : Bytes) :
    Except Fault (α × Bytes) → Except Fault (α × Bytes) → Prop
  | read (a : α) {rest : Bytes} (unread : rest <:+ input) :
      Lengthens input more (.ok (a, rest)) (.ok (a, rest ++ more))
  | refused (kind : FaultKind) {rest : Bytes} (unread : rest <:+ input) :
      Lengthens input more (.error ⟨kind, rest⟩) (.error ⟨kind, rest ++ more⟩)
  | ranOut {rest : Bytes} (unread : rest <:+ input) (result : Except Fault (α × Bytes)) :
      Lengthens input more (.error ⟨.truncated, rest⟩) result

/-- The reader goes forward through the input. -/
def ForwardIn (r : Reader α) (input : Bytes) : Prop :=
  ∀ more, Lengthens input more (r input) (r (input ++ more))

/-- The reader goes forward through any input. -/
def Forward (r : Reader α) : Prop :=
  ∀ input, r.ForwardIn input

theorem Lengthens.mono {input middle more : Bytes} {short long : Except Fault (α × Bytes)}
    (lengthens : Lengthens middle more short long) (suffix : middle <:+ input) :
    Lengthens input more short long := by
  cases lengthens with
  | read a unread => exact .read a (unread.trans suffix)
  | refused kind unread => exact .refused kind (unread.trans suffix)
  | ranOut unread => exact .ranOut (unread.trans suffix) long

/-- What is read to its very end with more behind it runs out before. -/
theorem Lengthens.ranOut_of_end {input more : Bytes} {short : Except Fault (α × Bytes)} {a : α}
    (lengthens : Lengthens input more short (.ok (a, []))) (missing : more ≠ []) :
    ∃ rest, short = .error ⟨.truncated, rest⟩ ∧ rest <:+ input := by
  generalize ended : (.ok (a, []) : Except Fault (α × Bytes)) = long at lengthens
  cases lengthens with
  | read b unread =>
      have nothing := congrArg Prod.snd (Except.ok.inj ended)
      exact absurd (List.append_eq_nil_iff.mp nothing.symm).2 missing
  | refused kind unread => cases ended
  | ranOut unread => exact ⟨_, rfl, unread⟩

theorem ForwardIn.unread {r : Reader α} {input : Bytes} (forward : r.ForwardIn input)
    {fault : Fault} (stopped : r input = .error fault) : fault.rest <:+ input := by
  have lengthened := forward []
  rw [stopped] at lengthened
  generalize r (input ++ []) = long at lengthened
  cases lengthened with
  | refused kind unread => exact unread
  | ranOut unread => exact unread

theorem forward_pure (a : α) : Forward (pure a : Reader α) :=
  fun input _ => .read a (List.suffix_refl input)

theorem ForwardIn.bind {r : Reader α} {f : α → Reader β} {input : Bytes}
    (first : r.ForwardIn input) (next : ∀ a, (f a).Forward) : (r >>= f).ForwardIn input := by
  intro more
  have lengthened := first more
  rw [bind_apply, bind_apply]
  generalize r input = short at lengthened
  generalize r (input ++ more) = long at lengthened
  cases lengthened with
  | read a unread => exact (next a _ more).mono unread
  | refused kind unread => exact .refused kind unread
  | ranOut unread => exact .ranOut unread _

theorem Forward.bind {r : Reader α} {f : α → Reader β} (first : r.Forward)
    (next : ∀ a, (f a).Forward) : (r >>= f).Forward :=
  fun input => (first input).bind next

/-! ## Numbers, bodies, runs and tables -/

/-- A reader of a written form that stops nowhere but where it began, having run out. -/
theorem Inverts.forward {r : Reader α} {write : α → Bytes} {Fits : α → Prop}
    (inverts : Inverts r write Fits)
    (stops : ∀ input fault, r input = .error fault → fault = ⟨.truncated, input⟩) :
    r.Forward := by
  intro input more
  cases read : r input with
  | error fault =>
      rw [stops input fault read]
      exact .ranOut (List.suffix_refl input) _
  | ok result =>
      obtain ⟨a, rest⟩ := result
      have longer : r (input ++ more) = .ok (a, rest ++ more) := by
        rw [inverts.write_read read, List.append_assoc]
        exact inverts.read_write (inverts.fits_read read) _
      rw [longer]
      refine .read a ⟨write a, ?_⟩
      rw [inverts.write_read read]

theorem forward_u8 : u8.Forward := by
  apply u8_inverts.forward
  intro input fault stopped
  unfold u8 at stopped
  split at stopped <;> cases stopped
  rfl

theorem forward_u16 : u16.Forward := by
  apply u16_inverts.forward
  intro input fault stopped
  unfold u16 at stopped
  split at stopped <;> cases stopped
  rfl

theorem forward_u32 : u32.Forward := by
  apply u32_inverts.forward
  intro input fault stopped
  unfold u32 at stopped
  split at stopped <;> cases stopped
  rfl

theorem forward_u64 : u64.Forward := by
  apply u64_inverts.forward
  intro input fault stopped
  unfold u64 at stopped
  split at stopped <;> cases stopped
  rfl

theorem forward_take (n : Nat) : (Reader.take n).Forward := by
  have inverts : Inverts (Reader.take n) id fun body => body.length = n :=
    fun _ _ _ => take_eq_ok
  apply inverts.forward
  intro input fault stopped
  unfold Reader.take at stopped
  dsimp only at stopped
  split at stopped <;> cases stopped
  rfl

theorem times_succ_eq_bind (item : Reader α) (n : Nat) :
    times item (n + 1) = do return (← item) :: (← times item n) := by
  funext input
  rw [times_succ, bind_apply]
  cases item input with
  | error fault => rfl
  | ok first =>
      obtain ⟨a, rest⟩ := first
      simp only [bind_apply]
      cases times item n rest with
      | error fault => rfl
      | ok others => rfl

theorem Forward.times {item : Reader α} (forward : item.Forward) (n : Nat) :
    (Reader.times item n).Forward := by
  induction n with
  | zero => exact forward_pure []
  | succ n ih =>
      rw [times_succ_eq_bind]
      exact forward.bind fun a => ih.bind fun as => forward_pure (a :: as)

theorem Forward.table {item : Reader α} (forward : item.Forward) : (Reader.table item).Forward :=
  forward_u16.bind fun count => forward.times count.toNat

/-! ## The whole input -/

theorem whole_eq_error {r : Reader α} {input : Bytes} {fault : Fault} :
    whole r input = .error fault ↔ r input = .error fault ∨
      ∃ a rest, r input = .ok (a, rest) ∧ rest ≠ [] ∧ fault = ⟨.trailing, rest⟩ := by
  rw [whole, bind_apply]
  cases r input with
  | error early => simp
  | ok result =>
      obtain ⟨a, rest⟩ := result
      cases rest with
      | nil => simp [atEnd, bind_apply, pure_apply]
      | cons b rest =>
          constructor
          · intro stopped
            cases stopped
            exact .inr ⟨a, b :: rest, rfl, List.cons_ne_nil b rest, rfl⟩
          · intro stopped
            obtain impossible | ⟨_, _, same, -, rfl⟩ := stopped
            · cases impossible
            · cases same
              rfl

end Reader

open Reader

/-! ## Constants -/

namespace Constant

theorem forward_readBody (tag : Tag) : (readBody tag).Forward := by
  have index {α : Type} (f : UInt16 → α) : Forward (do return f (← u16)) :=
    forward_u16.bind fun _ => forward_pure _
  have pair {α : Type} (f : UInt16 → UInt16 → α) : Forward (do return f (← u16) (← u16)) :=
    forward_u16.bind fun _ => forward_u16.bind fun _ => forward_pure _
  cases tag with
  | utf8 =>
      exact forward_u16.bind fun length => (forward_take length.toNat).bind fun _ => forward_pure _
  | integer => exact forward_u32.bind fun _ => forward_pure _
  | float => exact forward_u32.bind fun _ => forward_pure _
  | long => exact forward_u64.bind fun _ => forward_pure _
  | double => exact forward_u64.bind fun _ => forward_pure _
  | methodHandle => exact forward_u8.bind fun _ => forward_u16.bind fun _ => forward_pure _
  | classRef => exact index _
  | string => exact index _
  | methodType => exact index _
  | module => exact index _
  | package => exact index _
  | fieldRef => exact pair _
  | methodRef => exact pair _
  | interfaceMethodRef => exact pair _
  | nameAndType => exact pair _
  | dynamic => exact pair _
  | invokeDynamic => exact pair _

/-- The tag alone decides whether a constant is refused. -/
theorem forward_read : read.Forward := by
  intro input more
  cases input with
  | nil => exact .ranOut (List.suffix_refl []) _
  | cons byte rest =>
      rw [List.cons_append, read, read]
      cases Tag.ofByte? byte with
      | none => exact .refused _ (List.suffix_refl (byte :: rest))
      | some tag => exact (forward_readBody tag rest more).mono (List.suffix_cons byte rest)

end Constant

namespace Pool

theorem forward_readSlots (n : Nat) (slots : Array (Option Constant)) :
    (readSlots n slots).Forward := by
  induction n using Nat.strongRecOn generalizing slots with
  | ind n ih =>
      intro input more
      cases n with
      | zero => exact .read _ (List.suffix_refl input)
      | succ n =>
          have lengthened := Constant.forward_read input more
          rw [readSlots, readSlots]
          generalize Constant.read input = short at lengthened
          generalize Constant.read (input ++ more) = long at lengthened
          cases lengthened with
          | refused kind unread => exact .refused kind unread
          | ranOut unread => exact .ranOut unread _
          | read constant unread =>
              by_cases wide : constant.isWide = true
              · simp only [wide, if_true]
                cases n with
                | zero => exact .refused _ unread
                | succ n => exact (ih n (by omega) _ _ more).mono unread
              · simp only [wide]
                exact (ih n (by omega) _ _ more).mono unread

theorem forward_read : read.Forward :=
  forward_u16.bind fun count => forward_readSlots (count.toNat - 1) #[]

end Pool

/-! ## The class file -/

theorem Attribute.forward_read : Attribute.read.Forward :=
  forward_u16.bind fun _ => forward_u32.bind fun length =>
    (forward_take length.toNat).bind fun _ => forward_pure _

theorem Member.forward_read : Member.read.Forward :=
  forward_u16.bind fun _ => forward_u16.bind fun _ => forward_u16.bind fun _ =>
    Attribute.forward_read.table.bind fun _ => forward_pure _

namespace ClassFile

theorem readMagic_eq_error {input : Bytes} {fault : Fault}
    (stopped : readMagic input = .error fault) : fault = ⟨.badMagic, input⟩ := by
  unfold readMagic at stopped
  split at stopped <;> cases stopped
  rfl

/-- Four bytes are enough to tell. -/
theorem forwardIn_readMagic {input : Bytes} (enough : 4 ≤ input.length) :
    readMagic.ForwardIn input := by
  intro more
  cases found : readMagic input with
  | ok result =>
      obtain ⟨_, rest⟩ := result
      have begins := readMagic_eq_ok.mp found
      rw [begins, List.append_assoc, readMagic_eq_ok.mpr rfl]
      exact .read () ⟨magic, rfl⟩
  | error fault =>
      cases longer : readMagic (input ++ more) with
      | error fault' =>
          rw [readMagic_eq_error found, readMagic_eq_error longer]
          exact .refused .badMagic (List.suffix_refl input)
      | ok result =>
          obtain ⟨_, rest⟩ := result
          have begins : (input ++ more).take 4 = magic := by
            rw [readMagic_eq_ok.mp longer]
            rfl
          rw [List.take_append_of_le_length enough] at begins
          have whole : input = magic ++ input.drop 4 := by
            rw [← begins, List.take_append_drop]
          rw [readMagic_eq_ok (u := ()) |>.mpr whole] at found
          cases found

theorem forwardIn_read {input : Bytes} (enough : 4 ≤ input.length) : read.ForwardIn input :=
  (forwardIn_readMagic enough).bind fun _ => forward_u16.bind fun _ => forward_u16.bind fun _ =>
    Pool.forward_read.bind fun _ => forward_u16.bind fun _ => forward_u16.bind fun _ =>
    forward_u16.bind fun _ => forward_u16.table.bind fun _ => Member.forward_read.table.bind fun _ =>
    Member.forward_read.table.bind fun _ => Attribute.forward_read.table.bind fun _ =>
    forward_pure _

/-- Less than four bytes are no magic number. -/
theorem read_of_short {input : Bytes} (short : input.length < 4) :
    read input = .error ⟨.badMagic, input⟩ := by
  have refused : readMagic input = .error ⟨.badMagic, input⟩ := by
    cases found : readMagic input with
    | error fault => rw [readMagic_eq_error found]
    | ok result =>
        obtain ⟨_, rest⟩ := result
        rw [readMagic_eq_ok.mp found, List.length_append] at short
        exact absurd short (by simp [magic])
  rw [read, bind_apply, refused]

/-- The reader stops somewhere in the input. -/
theorem unread_of_read {input : Bytes} {fault : Fault} (stopped : read input = .error fault) :
    fault.rest <:+ input := by
  by_cases enough : 4 ≤ input.length
  · exact (forwardIn_read enough).unread stopped
  · rw [read_of_short (by omega)] at stopped
    cases stopped
    exact List.suffix_refl input

/-! ## Where the parser stops -/

/-- The parser stops at the offset, with the end of the input from there on unread, and calls
the fault by the word. -/
def StopsAt (bytes : Bytes) (offset : Nat) (word : String) : Prop :=
  offset ≤ bytes.length ∧ ∃ kind : FaultKind, kind.text = word ∧
    Reader.whole read bytes = .error ⟨kind, bytes.drop offset⟩ ∧
    parse bytes = .error (.unreadable offset kind)

theorem stopsAt_of_whole {bytes : Bytes} {fault : Fault}
    (stopped : Reader.whole read bytes = .error fault) (unread : fault.rest <:+ bytes) :
    StopsAt bytes (bytes.length - fault.rest.length) fault.kind.text := by
  refine ⟨Nat.sub_le _ _, fault.kind, rfl, ?_, ?_⟩
  · rw [stopped, ← List.suffix_iff_eq_drop.mp unread]
  · rw [parse, stopped]

/-- Behind the end of a class file nothing may follow. -/
theorem stopsAt_end {bytes more : Bytes} {c : ClassFile} (parsed : parse bytes = .ok c)
    (goesOn : more ≠ []) : StopsAt (bytes ++ more) bytes.length "Eof" := by
  obtain ⟨fits, pool, written, rfl⟩ := parse_eq_ok.mp parsed
  have read : read (c.written pool ++ more) = .ok (c, more) :=
    read_eq_ok.mpr ⟨fits, pool, written, rfl⟩
  have stops := stopsAt_of_whole (whole_eq_error.mpr (.inr ⟨c, more, read, goesOn, rfl⟩))
    (List.suffix_append _ more)
  show StopsAt _ _ FaultKind.trailing.text
  simpa using stops

/-- A class file of which the end is missing is read until it runs out. -/
theorem stopsAt_of_cut {front back : Bytes} {c : ClassFile} (parsed : parse (front ++ back) = .ok c)
    (missing : back ≠ []) (enough : 4 ≤ front.length) : ∃ offset, StopsAt front offset "Eof" := by
  obtain ⟨fits, pool, written, same⟩ := parse_eq_ok.mp parsed
  have whole : read (front ++ back) = .ok (c, []) :=
    read_eq_ok.mpr ⟨fits, pool, written, by rw [same, List.append_nil]⟩
  have lengthened := forwardIn_read enough back
  rw [whole] at lengthened
  obtain ⟨rest, stopped, unread⟩ := lengthened.ranOut_of_end missing
  exact ⟨_, stopsAt_of_whole (whole_eq_error.mpr (.inl stopped)) unread⟩

theorem stopsAt_begin {front : Bytes} (short : front.length < 4) : StopsAt front 0 "Tag" := by
  have stops := stopsAt_of_whole (whole_eq_error.mpr (.inl (read_of_short short)))
    (List.suffix_refl front)
  show StopsAt front 0 FaultKind.badMagic.text
  simpa using stops

/-- A class file with more behind it is refused where it ended, and one of which the end is
missing is refused for the input running out; only a piece too short for the magic number is
refused for that. Whatever is refused is refused at a place inside it. -/
theorem parse_stops_where_input_fails (bytes : Bytes) :
    (∀ c, parse bytes = .ok c →
      (∀ more, more ≠ [] → StopsAt (bytes ++ more) bytes.length "Eof") ∧
      ∀ front, front <+: bytes → front ≠ bytes →
        (4 ≤ front.length → ∃ offset, StopsAt front offset "Eof") ∧
        (front.length < 4 → StopsAt front 0 "Tag")) ∧
    ∀ e, parse bytes = .error e →
      ∃ offset kind, e = .unreadable offset kind ∧ StopsAt bytes offset kind.text := by
  refine ⟨fun c parsed => ⟨fun more goesOn => stopsAt_end parsed goesOn, ?_⟩, ?_⟩
  · intro front begins shorter
    obtain ⟨back, rfl⟩ := begins
    refine ⟨stopsAt_of_cut parsed ?_, stopsAt_begin⟩
    intro nothing
    rw [nothing, List.append_nil] at shorter
    exact shorter rfl
  · intro e refused
    rw [parse] at refused
    cases stopped : Reader.whole read bytes with
    | ok result =>
        rw [stopped] at refused
        cases refused
    | error fault =>
        rw [stopped] at refused
        cases refused
        have unread : fault.rest <:+ bytes := by
          rcases whole_eq_error.mp stopped with early | ⟨c, rest, read, -, rfl⟩
          · exact unread_of_read early
          · obtain ⟨-, pool, -, rfl⟩ := read_eq_ok.mp read
            exact List.suffix_append _ rest
        exact ⟨_, _, rfl, stopsAt_of_whole stopped unread⟩

/-- A class with a wide constant and a name, once with a byte behind it, once cut inside the
name, once inside the magic number. -/
theorem parse_stops_where_input_fails_cut :
    let bytes : Bytes := [0xCA, 0xFE, 0xBA, 0xBE, 0, 0, 0, 52, 0, 4, 5, 0, 0, 0, 0, 0, 0, 0, 1,
      1, 0, 2, 0x41, 0x42, 0, 0x21, 0, 0, 0, 0, 0, 0, 0, 0, 0, 0, 0, 0]
    (∃ c, parse bytes = .ok c) ∧ StopsAt (bytes ++ [0]) 38 "Eof" ∧
      (∃ offset, StopsAt (bytes.take 23) offset "Eof") ∧ StopsAt (bytes.take 3) 0 "Tag" := by
  intro bytes
  have parsed : parse bytes = .ok
      { version := ⟨52, 0⟩
        pool := ⟨#[some (.long 1), none, some (.utf8 [0x41, 0x42])]⟩
        access := 0x21
        thisClass := 0
        superClass := 0
        interfaces := []
        fields := []
        methods := []
        attributes := [] } := rfl
  obtain ⟨longer, shorter⟩ := (parse_stops_where_input_fails bytes).1 _ parsed
  refine ⟨⟨_, parsed⟩, longer [0] (by decide), ?_, ?_⟩
  · exact (shorter _ (List.take_prefix 23 bytes) (by decide)).1 (by decide)
  · exact (shorter _ (List.take_prefix 3 bytes) (by decide)).2 (by decide)

end ClassFile

end Downlevel
