/-
# Downlevel.Proofs.Descriptor — descriptors are read as they are written

A descriptor is well named if no class name in it is empty or holds a semicolon. Reading
accepts exactly the written forms of well-named descriptors (`MethodDescriptor.parse_reads_text`),
and no two of them are written alike, whatever other characters their class names hold.

Each reader is described by one equivalence: it takes a value off the front of the text exactly
if the value is well named and its written form stands there, in front of any rest. Nothing has
to be tried twice, because the first character tells which form follows: no type starts with the
parenthesis that ends the parameters, with the letter of void, or, below its dimensions, with a
bracket (`ElementType.chars_eq_cons`).
-/
import Mathlib.Data.List.TakeDrop
import Mathlib.Data.List.TakeWhile
import Downlevel.Descriptor

namespace Downlevel

set_option autoImplicit false

theorem Primitive.ofLetter?_eq_some {c : Char} {type : Primitive} :
    ofLetter? c = some type ↔ c = type.letter := by
  constructor
  · intro found
    unfold ofLetter? at found
    split at found <;> cases found <;> rfl
  · intro same
    subst same
    cases type <;> rfl

namespace ElementType

/-- A class name is not empty and holds no semicolon. -/
def WellNamed (element : ElementType) : Prop :=
  ∀ name, element = .object name → name ≠ [] ∧ ';' ∉ name

theorem wellNamed_primitive (type : Primitive) : (primitive type).WellNamed := by
  intro name impossible
  cases impossible

theorem wellNamed_object {name : List Char} :
    (object name).WellNamed ↔ name ≠ [] ∧ ';' ∉ name := by
  constructor
  · intro named
    exact named name rfl
  · intro named other same
    cases same
    exact named

/-- What an element type starts with. -/
theorem chars_eq_cons (element : ElementType) :
    ∃ c cs, element.chars = c :: cs ∧ c ≠ '[' ∧ c ≠ ')' ∧ c ≠ 'V' := by
  cases element with
  | object name => exact ⟨'L', name ++ [';'], rfl, by decide, by decide, by decide⟩
  | primitive type =>
      refine ⟨type.letter, [], rfl, ?_⟩
      cases type <;> decide

end ElementType

/-! ## Types -/

/-- A class name runs up to the first semicolon. -/
theorem span_semicolon {cs name rest : List Char} :
    cs.span (· != ';') = (name, ';' :: rest) ↔ ';' ∉ name ∧ cs = name ++ ';' :: rest := by
  rw [List.span_eq_takeWhile_dropWhile, Prod.mk.injEq]
  constructor
  · intro ⟨before, behind⟩
    subst before
    refine ⟨fun member => ?_, ?_⟩
    · have passed := List.mem_takeWhile_imp member
      simp at passed
    · rw [← behind, List.takeWhile_append_dropWhile]
  · intro ⟨absent, same⟩
    subst same
    have passed : ∀ c ∈ name, (c != ';') = true := by
      intro c member
      have other : c ≠ ';' := fun semicolon => absent (semicolon ▸ member)
      simpa using other
    rw [List.takeWhile_append_of_pos passed, List.dropWhile_append_of_pos passed]
    simp

namespace FieldType

/-- Reading takes an element type exactly off the front of its written form. -/
theorem parseElement?_eq_some {cs rest : List Char} {element : ElementType} :
    parseElement? cs = some (element, rest) ↔
      element.WellNamed ∧ cs = element.chars ++ rest := by
  constructor
  · intro parsed
    unfold parseElement? at parsed
    split at parsed
    · rename_i behind
      split at parsed
      · rename_i name rest' split
        obtain ⟨absent, same⟩ := span_semicolon.mp split
        by_cases empty : name = []
        · simp [empty] at parsed
        · rw [if_neg empty] at parsed
          cases parsed
          refine ⟨ElementType.wellNamed_object.mpr ⟨empty, absent⟩, ?_⟩
          simp [ElementType.chars, same]
      · cases parsed
    · rename_i c behind _
      obtain ⟨type, letter, same⟩ := Option.map_eq_some_iff.mp parsed
      cases same
      refine ⟨ElementType.wellNamed_primitive type, ?_⟩
      rw [Primitive.ofLetter?_eq_some.mp letter]
      rfl
    · cases parsed
  · intro ⟨named, same⟩
    subst same
    cases element with
    | primitive type => cases type <;> rfl
    | object name =>
        obtain ⟨nonempty, absent⟩ := ElementType.wellNamed_object.mp named
        have split : (name ++ ';' :: rest).span (· != ';') = (name, ';' :: rest) :=
          span_semicolon.mpr ⟨absent, rfl⟩
        simp only [ElementType.chars, List.cons_append, List.append_assoc, List.nil_append,
          parseElement?, split, if_neg nonempty]

/-- Reading below some dimensions takes further brackets, then an element type. -/
theorem parseUnder_eq_some {dims : Nat} {cs rest : List Char} {type : FieldType} :
    parseUnder dims cs = some (type, rest) ↔
      type.element.WellNamed ∧ ∃ more, type.dims = dims + more ∧
        cs = List.replicate more '[' ++ (type.element.chars ++ rest) := by
  obtain ⟨first, others, starts, unlike, -⟩ := type.element.chars_eq_cons
  fun_induction parseUnder dims cs with
  | case1 dims cs ih =>
      rw [ih]
      constructor
      · intro ⟨named, more, dimensions, same⟩
        exact ⟨named, more + 1, by omega, by rw [same, List.replicate_succ, List.cons_append]⟩
      · intro ⟨named, more, dimensions, same⟩
        cases more with
        | zero =>
            rw [starts] at same
            exact absurd (List.cons.inj same).1.symm unlike
        | succ more => exact ⟨named, more, by omega, (List.cons.inj same).2⟩
  | case2 dims cs plain =>
      constructor
      · intro parsed
        obtain ⟨⟨element, rest'⟩, read, same⟩ := Option.map_eq_some_iff.mp parsed
        cases same
        obtain ⟨named, same⟩ := parseElement?_eq_some.mp read
        exact ⟨named, 0, rfl, same⟩
      · intro ⟨named, more, dimensions, same⟩
        cases more with
        | zero =>
            obtain rfl : type.dims = dims := dimensions
            rw [parseElement?_eq_some.mpr ⟨named, same⟩]
            rfl
        | succ more => exact absurd same (plain _)

/-- The class name below the dimensions of a type, if there is one, is as it must be. -/
def WellNamed (type : FieldType) : Prop :=
  type.element.WellNamed

/-- Reading takes a type exactly off the front of its written form. -/
theorem parse?_eq_some {cs rest : List Char} {type : FieldType} :
    parse? cs = some (type, rest) ↔ type.WellNamed ∧ cs = type.chars ++ rest := by
  rw [parse?, parseUnder_eq_some, WellNamed, chars, List.append_assoc]
  constructor
  · intro ⟨named, more, dimensions, same⟩
    rw [dimensions, Nat.zero_add]
    exact ⟨named, same⟩
  · intro ⟨named, same⟩
    exact ⟨named, type.dims, (Nat.zero_add _).symm, same⟩

/-- What a type starts with. -/
theorem chars_eq_cons (type : FieldType) :
    ∃ c cs, type.chars = c :: cs ∧ c ≠ ')' ∧ c ≠ 'V' := by
  obtain ⟨dims, element⟩ := type
  cases dims with
  | zero =>
      obtain ⟨c, cs, starts, -, others⟩ := element.chars_eq_cons
      exact ⟨c, cs, starts, others⟩
  | succ dims =>
      refine ⟨'[', List.replicate dims '[' ++ element.chars, ?_, by decide, by decide⟩
      rw [chars, List.replicate_succ, List.cons_append]

end FieldType

/-! ## Descriptors -/

namespace MethodDescriptor

/-- Every class name that occurs, in a parameter or in the result and under any number of
dimensions, is not empty and holds no semicolon. -/
def WellNamed (d : MethodDescriptor) : Prop :=
  ∀ type ∈ d.parameters ++ d.result.toList, type.WellNamed

/-- Each type takes at least a character. -/
theorem length_le_chars (types : List FieldType) :
    types.length ≤ (types.flatMap FieldType.chars).length := by
  induction types with
  | nil => exact Nat.le_refl 0
  | cons type types ih =>
      obtain ⟨c, cs, starts, -⟩ := type.chars_eq_cons
      rw [List.flatMap_cons, List.length_append, starts]
      simp only [List.length_cons]
      omega

/-- Reading takes parameters up to the parenthesis, if there are no more than the fuel allows. -/
theorem parseParameters?_eq_some {fuel : Nat} {read types : List FieldType}
    {cs rest : List Char} :
    parseParameters? fuel read cs = some (types, rest) ↔
      ∃ more, types = read.reverse ++ more ∧ more.length ≤ fuel ∧
        (∀ type ∈ more, type.WellNamed) ∧ cs = more.flatMap FieldType.chars ++ ')' :: rest := by
  fun_induction parseParameters? fuel read cs with
  | case1 fuel read behind =>
      constructor
      · intro parsed
        cases parsed
        exact ⟨[], (List.append_nil _).symm, Nat.zero_le _, by simp, rfl⟩
      · intro ⟨more, same, few, named, written⟩
        cases more with
        | nil =>
            cases written
            rw [same, List.append_nil]
        | cons type more =>
            -- A type does not start with the parenthesis.
            obtain ⟨c, cs, starts, unlike, -⟩ := type.chars_eq_cons
            rw [List.flatMap_cons, starts] at written
            exact absurd (List.cons.inj written).1.symm unlike
  | case2 read cs further =>
      constructor
      · intro impossible
        cases impossible
      · intro ⟨more, same, few, named, written⟩
        obtain rfl := List.length_eq_zero_iff.mp (Nat.le_zero.mp few)
        exact absurd written (further _)
  | case3 fuel read cs further type behind parsed ih =>
      obtain ⟨typeNamed, starts⟩ := FieldType.parse?_eq_some.mp parsed
      rw [ih]
      constructor
      · intro ⟨more, same, few, named, written⟩
        refine ⟨type :: more, ?_, Nat.succ_le_succ few, ?_, ?_⟩
        · rw [same, List.reverse_cons, List.append_assoc]
          rfl
        · exact List.forall_mem_cons.mpr ⟨typeNamed, named⟩
        · rw [starts, written, List.flatMap_cons, List.append_assoc]
      · intro ⟨more, same, few, named, written⟩
        cases more with
        | nil => exact absurd written (further _)
        | cons other more =>
            obtain ⟨otherNamed, moreNamed⟩ := List.forall_mem_cons.mp named
            rw [List.flatMap_cons, List.append_assoc] at written
            have again := FieldType.parse?_eq_some.mpr ⟨otherNamed, written⟩
            cases parsed.symm.trans again
            refine ⟨more, ?_, Nat.le_of_succ_le_succ few, moreNamed, rfl⟩
            rw [same, List.reverse_cons, List.append_assoc]
            rfl
  | case4 fuel read cs further unparsed =>
      constructor
      · intro impossible
        cases impossible
      · intro ⟨more, same, few, named, written⟩
        cases more with
        | nil => exact absurd written (further _)
        | cons type more =>
            rw [List.flatMap_cons, List.append_assoc] at written
            have parsed := FieldType.parse?_eq_some.mpr
              ⟨(List.forall_mem_cons.mp named).1, written⟩
            rw [unparsed] at parsed
            cases parsed

/-- Reading a result that ends the text: void, or a type. -/
theorem parseResult?_eq_some {cs : List Char} {result : Option FieldType} :
    parseResult? cs = some result ↔
      result = none ∧ cs = ['V'] ∨
        ∃ type, result = some type ∧ type.WellNamed ∧ cs = type.chars := by
  constructor
  · intro parsed
    unfold parseResult? at parsed
    split at parsed
    · cases parsed
      exact .inl ⟨rfl, rfl⟩
    · split at parsed
      · rename_i type read
        cases parsed
        obtain ⟨named, written⟩ := FieldType.parse?_eq_some.mp read
        rw [List.append_nil] at written
        exact .inr ⟨type, rfl, named, written⟩
      · cases parsed
  · intro either
    rcases either with ⟨void, written⟩ | ⟨type, same, named, written⟩
    · rw [void, written]
      rfl
    · have read : FieldType.parse? cs = some (type, []) :=
        FieldType.parse?_eq_some.mpr ⟨named, by rw [List.append_nil, written]⟩
      unfold parseResult?
      split
      · obtain ⟨c, cs, starts, -, unlike⟩ := type.chars_eq_cons
        rw [starts] at written
        exact absurd (List.cons.inj written).1.symm unlike
      · rw [read, same]

/-- Reading accepts exactly the written forms of well-named descriptors. -/
theorem parseChars?_eq_some {cs : List Char} {d : MethodDescriptor} :
    parseChars? cs = some d ↔ d.WellNamed ∧ cs = d.chars := by
  obtain ⟨parameters, result⟩ := d
  simp only [WellNamed, List.forall_mem_append]
  constructor
  · intro parsed
    unfold parseChars? at parsed
    split at parsed
    · split at parsed
      · rename_i rest types behind read
        obtain ⟨result', readResult, same⟩ := Option.map_eq_some_iff.mp parsed
        cases same
        obtain ⟨more, same, -, named, written⟩ := parseParameters?_eq_some.mp read
        cases same
        rcases parseResult?_eq_some.mp readResult with
          ⟨void, writtenResult⟩ | ⟨type, returns, typeNamed, writtenResult⟩
        · subst void
          refine ⟨⟨named, by simp⟩, ?_⟩
          rw [written, writtenResult]
          rfl
        · subst returns
          refine ⟨⟨named, by simpa using typeNamed⟩, ?_⟩
          rw [written, writtenResult]
          rfl
      · cases parsed
    · cases parsed
  · intro ⟨⟨named, resultNamed⟩, written⟩
    have read (behind : List Char) :
        parseParameters? (parameters.flatMap FieldType.chars ++ ')' :: behind).length []
          (parameters.flatMap FieldType.chars ++ ')' :: behind) = some (parameters, behind) := by
      refine parseParameters?_eq_some.mpr ⟨parameters, rfl, ?_, named, rfl⟩
      have few := length_le_chars parameters
      rw [List.length_append]
      omega
    subst written
    cases result with
    | none =>
        have readResult : parseResult? ['V'] = some none := rfl
        simp only [chars, parseChars?, read, readResult, Option.map_some]
    | some type =>
        have readResult : parseResult? type.chars = some (some type) :=
          parseResult?_eq_some.mpr (.inr ⟨type, rfl, by simpa using resultNamed, rfl⟩)
        simp only [chars, parseChars?, read, readResult, Option.map_some]

theorem text_eq_iff {text : String} {d : MethodDescriptor} :
    d.text = text ↔ text.toList = d.chars := by
  rw [MethodDescriptor.text, ← String.toList_inj, String.toList_ofList]
  exact eq_comm

/-- The error apart, `parse` is `parse?`. -/
theorem parse_eq_ok {text : String} {d : MethodDescriptor} :
    parse text = .ok d ↔ parse? text = some d := by
  unfold parse
  cases parse? text with
  | none => simp
  | some other => simp

theorem parse_eq_error {text : String} :
    parse text = .error (.badDescriptor text) ↔ ∀ d, parse text ≠ .ok d := by
  unfold parse
  cases parse? text with
  | none => simp
  | some other => simp

theorem parse_eq_ok_iff_text {text : String} {d : MethodDescriptor} :
    parse text = .ok d ↔ d.text = text ∧ d.WellNamed := by
  rw [parse_eq_ok, parse?, parseChars?_eq_some, text_eq_iff]
  exact and_comm

/-- A text is read as a descriptor exactly if it is the text of the descriptor and the descriptor
is well named. So a well-named descriptor is read back from its text, and no two have the same
text. Any text that is not written this way is refused and quoted in the error. -/
theorem parse_reads_text (text : String) (d : MethodDescriptor) :
    (parse text = .ok d ↔ d.text = text ∧ d.WellNamed) ∧
      (d.WellNamed → parse d.text = .ok d) ∧
      (∀ other : MethodDescriptor, d.WellNamed → other.WellNamed → d.text = other.text →
        d = other) ∧
      (parse text = .error (.badDescriptor text) ↔
        ¬ ∃ written : MethodDescriptor, written.text = text ∧ written.WellNamed) := by
  have back (d : MethodDescriptor) (named : d.WellNamed) : parse d.text = .ok d :=
    parse_eq_ok_iff_text.mpr ⟨rfl, named⟩
  refine ⟨parse_eq_ok_iff_text, back d, ?_, ?_⟩
  · intro other named otherNamed same
    have again := back other otherNamed
    rw [← same, back d named] at again
    exact Except.ok.inj again
  · rw [parse_eq_error, not_exists]
    exact forall_congr' fun written => not_congr parse_eq_ok_iff_text

/-- Class names that look like pieces of descriptors, one of them below two dimensions. -/
theorem parse_reads_text_tangled :
    let d : MethodDescriptor :=
      ⟨[⟨0, .object [')', 'V']⟩, ⟨2, .object ['(', '[', 'L', 'I']⟩, ⟨0, .primitive .long⟩], none⟩
    d.WellNamed ∧ parse "(L)V;[[L([LI;J)V" = .ok d ∧ parse d.text = .ok d ∧
      parse "(L)V;[[L;J)V" = .error (.badDescriptor "(L)V;[[L;J)V") := by
  intro d
  have named : d.WellNamed := by
    simp [d, WellNamed, FieldType.WellNamed, ElementType.wellNamed_object,
      ElementType.wellNamed_primitive]
  have written : d.text = "(L)V;[[L([LI;J)V" := by decide +kernel
  obtain ⟨reads, back, -, -⟩ := parse_reads_text "(L)V;[[L([LI;J)V" d
  exact ⟨named, reads.mpr ⟨written, named⟩, back named, by decide +kernel⟩

end MethodDescriptor

end Downlevel
