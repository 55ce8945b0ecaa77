/-
# Downlevel.Proofs.LambdaNames — the names of lambda bodies

The body of a lambda is called `lambda$` and a number, or `lambda$`, anything at all, `$` and a
number (`NamesLambdaBody`). What stands behind the last dollar sign tells these names from all
others, however many dollar signs come before it (`isLambdaBody_iff`): behind the last one there
is no other, and a number has none, so both cut the name at the same place.
-/
import Downlevel.CallSite

namespace Downlevel

set_option autoImplicit false

/-! ## The last dollar sign -/

/-- Going back from the end, all of the counter is passed. -/
theorem takeWhile_counter {counter : List Char} (plain : ∀ c ∈ counter, c ≠ '$')
    (others : List Char) :
    (counter.reverse ++ others).takeWhile (· != '$') =
      counter.reverse ++ others.takeWhile (· != '$') := by
  apply List.takeWhile_append_of_pos
  intro c held
  simpa using plain c (List.mem_reverse.mp held)

theorem afterLastDollar_self {counter : List Char} (plain : ∀ c ∈ counter, c ≠ '$') :
    afterLastDollar counter = counter := by
  have passed := takeWhile_counter plain []
  rw [List.append_nil, List.takeWhile_nil, List.append_nil] at passed
  rw [afterLastDollar, passed, List.reverse_reverse]

theorem afterLastDollar_append (front : List Char) {counter : List Char}
    (plain : ∀ c ∈ counter, c ≠ '$') : afterLastDollar (front ++ '$' :: counter) = counter := by
  rw [afterLastDollar, List.reverse_append, List.reverse_cons, List.append_assoc,
    takeWhile_counter plain, List.singleton_append, List.takeWhile_cons_of_neg (by decide),
    List.append_nil, List.reverse_reverse]

/-- There is no dollar sign, or the last one divides the characters. -/
theorem afterLastDollar_cases (cs : List Char) :
    cs = afterLastDollar cs ∨ ∃ front, cs = front ++ '$' :: afterLastDollar cs := by
  have parts : cs = (cs.reverse.dropWhile (· != '$')).reverse ++ afterLastDollar cs := by
    rw [afterLastDollar, ← List.reverse_append, List.takeWhile_append_dropWhile,
      List.reverse_reverse]
  cases divided : cs.reverse.dropWhile (· != '$') with
  | nil =>
      rw [divided, List.reverse_nil, List.nil_append] at parts
      exact .inl parts
  | cons c others =>
      have sign : c = '$' := by
        have stopped := List.head?_dropWhile_not (· != '$') cs.reverse
        simpa [divided] using stopped
      rw [divided, sign, List.reverse_cons, List.append_assoc, List.singleton_append] at parts
      exact .inr ⟨others.reverse, parts⟩

/-! ## Bodies -/

/-- The name is `lambda$` and at least one digit, or `lambda$`, anything, `$` and at least one
digit. -/
def NamesLambdaBody (name : String) : Prop :=
  ∃ digits : String, digits ≠ "" ∧ (∀ d ∈ digits.toList, '0' ≤ d ∧ d ≤ '9') ∧
    (name = "lambda$" ++ digits ∨ ∃ between : String, name = "lambda$" ++ between ++ "$" ++ digits)

theorem lambdaTail?_eq_some {cs rest : List Char} :
    lambdaTail? cs = some rest ↔ cs = "lambda$".toList ++ rest := by
  constructor
  · intro tailed
    unfold lambdaTail? at tailed
    split at tailed
    · cases tailed
      rfl
    · cases tailed
  · intro same
    rw [same]
    rfl

theorem isDigit_iff {c : Char} : c.isDigit = true ↔ '0' ≤ c ∧ c ≤ '9' := by
  simp [Char.isDigit, Char.le_def]

theorem ne_dollar_of_digit {c : Char} (digit : '0' ≤ c ∧ c ≤ '9') : c ≠ '$' := by
  intro same
  rw [same] at digit
  exact absurd digit (by decide)

theorem isLambdaBody_iff {name : String} : isLambdaBody name = true ↔ NamesLambdaBody name := by
  have decided (rest : List Char) : (afterLastDollar rest != [] &&
      (afterLastDollar rest).all Char.isDigit) = true ↔
        afterLastDollar rest ≠ [] ∧ ∀ d ∈ afterLastDollar rest, '0' ≤ d ∧ d ≤ '9' := by
    simp [isDigit_iff]
  unfold isLambdaBody NamesLambdaBody
  constructor
  · intro body
    cases tailed : lambdaTail? name.toList with
    | none => simp [tailed] at body
    | some rest =>
        simp only [tailed] at body
        obtain ⟨filled, digits⟩ := (decided rest).mp body
        have text := lambdaTail?_eq_some.mp tailed
        refine ⟨String.ofList (afterLastDollar rest), by simpa using filled, by simpa using digits, ?_⟩
        rcases afterLastDollar_cases rest with whole | ⟨front, divided⟩
        · left
          rw [← String.toList_inj, text, whole]
          simp [← whole]
        · right
          refine ⟨String.ofList front, ?_⟩
          rw [← String.toList_inj, text, divided]
          simp [← divided]
  · intro named
    obtain ⟨digits, filled, each, form⟩ := named
    have plain (c : Char) (held : c ∈ digits.toList) : c ≠ '$' := ne_dollar_of_digit (each c held)
    have counted {rest : List Char} (counter : afterLastDollar rest = digits.toList) :
        (afterLastDollar rest != [] && (afterLastDollar rest).all Char.isDigit) = true := by
      rw [decided, counter]
      exact ⟨by simpa using filled, each⟩
    rcases form with short | ⟨between, long⟩
    · have tailed : lambdaTail? name.toList = some digits.toList :=
        lambdaTail?_eq_some.mpr (by rw [short, String.toList_append])
      simp only [tailed]
      exact counted (afterLastDollar_self plain)
    · have tailed : lambdaTail? name.toList = some (between.toList ++ '$' :: digits.toList) :=
        lambdaTail?_eq_some.mpr (by rw [long]; simp)
      simp only [tailed]
      exact counted (afterLastDollar_append between.toList plain)

end Downlevel
