/-
# Downlevel.Proofs.Sequencing — taking successful computations apart

The library computes in two ways that can fail: plainly (`Except`), and with a state
that outlives a failure (`Noted`, `Step` and `Pool.Edit`, all of them `ExceptT` over
`StateM`). A proof about a successful computation starts from its parts having
succeeded. The lemmas here are the only place where the two monads are opened:

* `bind_eq_ok` and `run_bind_eq_ok` split a sequence in two, `mapM_eq_ok` a loop into its
  rounds;
* `Fails x P` says of a plain computation that every error of it satisfies `P`, and is put
  together in the same way;
* `Does view x P` says what it takes for `x` to succeed, as a relation `P` between the state
  before, the result and the state after, of which only the part that `view` shows counts.
  The notes that a computation leaves are not part of the view. A relation that describes
  the computation exactly therefore also shows that no note has any influence on it.
-/
import Mathlib.Data.List.Forall2
import Mathlib.Data.List.ReduceOption

namespace Downlevel.Sequencing

set_option autoImplicit false

variable {ε σ τ α β : Type}

/-! ## Failing plainly -/

theorem bind_eq_ok {x : Except ε α} {f : α → Except ε β} {b : β} :
    x >>= f = .ok b ↔ ∃ a, x = .ok a ∧ f a = .ok b := by
  cases x with
  | error e => simp [bind, Except.bind]
  | ok a => simp [bind, Except.bind]

theorem bind_eq_error {x : Except ε α} {f : α → Except ε β} {e : ε} :
    x >>= f = .error e ↔ x = .error e ∨ ∃ a, x = .ok a ∧ f a = .error e := by
  cases x with
  | error e => simp [bind, Except.bind]
  | ok a => simp [bind, Except.bind]

/-- Where what follows fails alike whatever comes first, the first has to have been fine. -/
theorem bind_eq_error_of {x : Except ε α} {f : α → Except ε β} {e : ε} {P : Prop}
    (next : ∀ a, x = .ok a → (f a = .error e ↔ P)) :
    x >>= f = .error e ↔ x = .error e ∨ (∀ e, ¬ x = .error e) ∧ P := by
  rw [bind_eq_error]
  cases x with
  | error e => simp
  | ok a => simp [next a rfl]

theorem bind_pure_eq_error {x : Except ε α} {f : α → β} {e : ε} :
    (do return f (← x)) = Except.error e ↔ x = .error e := by
  cases x with
  | error e => simp [bind, Except.bind]
  | ok a => simp [bind, Except.bind, pure, Except.pure]

theorem pure_eq_ok {a b : α} : (pure a : Except ε α) = .ok b ↔ a = b := by
  constructor
  · intro same
    cases same
    rfl
  · rintro rfl
    rfl

theorem isOk_iff {x : Except ε α} : x.isOk = true ↔ ∃ a, x = .ok a := by
  cases x with
  | error e => simp [Except.isOk, Except.toBool]
  | ok a => simp [Except.isOk, Except.toBool]

/-- A check that refuses `c` before going on with `x`. -/
theorem refuse_eq_ok {c : Prop} [Decidable c] {e : ε} {next : α → Except ε β} {x : Except ε β}
    {b : β} : (if c then throw e >>= next else x) = .ok b ↔ ¬ c ∧ x = .ok b := by
  by_cases refused : c
  · rw [if_pos refused]
    constructor
    · intro impossible
      cases impossible
    · rintro ⟨passed, -⟩
      exact absurd refused passed
  · rw [if_neg refused]
    exact ⟨fun done => ⟨refused, done⟩, fun done => done.2⟩

theorem mapM_eq_ok {f : α → Except ε β} {as : List α} {bs : List β} :
    as.mapM f = .ok bs ↔ List.Forall₂ (fun a b => f a = .ok b) as bs := by
  induction as generalizing bs with
  | nil =>
      rw [List.mapM_nil, pure_eq_ok, List.forall₂_nil_left_iff]
      exact eq_comm
  | cons a as ih =>
      rw [List.mapM_cons, bind_eq_ok, List.forall₂_cons_left_iff]
      constructor
      · rintro ⟨b, head, rest⟩
        obtain ⟨bs, tail, same⟩ := bind_eq_ok.mp rest
        exact ⟨b, bs, head, ih.mp tail, (pure_eq_ok.mp same).symm⟩
      · rintro ⟨b, bs, head, tail, rfl⟩
        exact ⟨b, head, bind_eq_ok.mpr ⟨bs, ih.mpr tail, rfl⟩⟩

/-- The error of the first item that has one. -/
inductive First (R : α → ε → Prop) : List α → ε → Prop where
  | here {a : α} {as : List α} {e : ε} (fault : R a e) : First R (a :: as) e
  | later {a : α} {as : List α} {e : ε} (fine : ∀ e, ¬ R a e) (rest : First R as e) :
      First R (a :: as) e

theorem not_first_nil {R : α → ε → Prop} {e : ε} : ¬ First R [] e := by
  intro first
  cases first

theorem first_cons {R : α → ε → Prop} {a : α} {as : List α} {e : ε} :
    First R (a :: as) e ↔ R a e ∨ (∀ e, ¬ R a e) ∧ First R as e := by
  constructor
  · intro first
    cases first with
    | here fault => exact .inl fault
    | later fine rest => exact .inr ⟨fine, rest⟩
  · rintro (fault | ⟨fine, rest⟩)
    · exact .here fault
    · exact .later fine rest

theorem first_singleton {R : α → ε → Prop} {a : α} {e : ε} : First R [a] e ↔ R a e := by
  simp [first_cons, not_first_nil]

theorem First.exists_mem {R : α → ε → Prop} {as : List α} {e : ε} (first : First R as e) :
    ∃ a ∈ as, R a e := by
  induction first with
  | here fault => exact ⟨_, List.mem_cons_self, fault⟩
  | later _ _ ih =>
      obtain ⟨a, held, fault⟩ := ih
      exact ⟨a, List.mem_cons_of_mem _ held, fault⟩

theorem first_append {R : α → ε → Prop} {as bs : List α} {e : ε} :
    First R (as ++ bs) e ↔ First R as e ∨ (∀ a ∈ as, ∀ e, ¬ R a e) ∧ First R bs e := by
  induction as with
  | nil => simp [not_first_nil]
  | cons a as ih =>
      rw [List.cons_append, first_cons, first_cons, ih, List.forall_mem_cons]
      tauto

theorem first_map {R : β → ε → Prop} {f : α → β} {as : List α} {e : ε} :
    First R (as.map f) e ↔ First (fun a => R (f a)) as e := by
  induction as with
  | nil => simp [not_first_nil]
  | cons a as ih => rw [List.map_cons, first_cons, first_cons, ih]

theorem First.congr {R S : α → ε → Prop} {as : List α} {e : ε}
    (same : ∀ a ∈ as, ∀ e, R a e ↔ S a e) : First R as e ↔ First S as e := by
  induction as with
  | nil => simp [not_first_nil]
  | cons a as ih =>
      obtain ⟨here, others⟩ := List.forall_mem_cons.mp same
      simp only [first_cons, ih others, here]

/-- A list has a first error if one of its items has an error. -/
theorem exists_first_iff {R : α → ε → Prop} {as : List α} :
    (∃ e, First R as e) ↔ ∃ a ∈ as, ∃ e, R a e := by
  induction as with
  | nil => simp [not_first_nil]
  | cons a as ih =>
      rw [List.exists_mem_cons_iff, ← ih]
      simp only [first_cons]
      by_cases faulty : ∃ e, R a e
      · obtain ⟨e, fault⟩ := faulty
        exact ⟨fun _ => .inl ⟨e, fault⟩, fun _ => ⟨e, .inl fault⟩⟩
      · have fine (e : ε) : ¬ R a e := fun fault => faulty ⟨e, fault⟩
        simp [fine]

theorem not_first_iff {R : α → ε → Prop} {as : List α} :
    (∀ e, ¬ First R as e) ↔ ∀ a ∈ as, ∀ e, ¬ R a e := by
  have both := not_congr (@exists_first_iff ε α R as)
  simpa using both

/-- A loop fails as the first of its rounds that does. -/
theorem mapM_eq_error {f : α → Except ε β} {as : List α} {e : ε} :
    as.mapM f = .error e ↔ First (fun a e => f a = .error e) as e := by
  induction as with
  | nil =>
      rw [List.mapM_nil]
      constructor
      · intro impossible
        cases impossible
      · intro first
        exact absurd first not_first_nil
  | cons a as ih =>
      rw [List.mapM_cons, first_cons, ← ih]
      exact bind_eq_error_of fun b _ => bind_pure_eq_error

/-- A list can be related to another if each of its items can be to something. -/
theorem exists_rounds_iff {R : α → β → Prop} {as : List α} :
    (∃ bs, List.Forall₂ R as bs) ↔ ∀ a ∈ as, ∃ b, R a b := by
  induction as with
  | nil => exact ⟨fun _ a member => absurd member List.not_mem_nil, fun _ => ⟨[], .nil⟩⟩
  | cons a as ih =>
      rw [List.forall_mem_cons, ← ih]
      constructor
      · rintro ⟨bs, rounds⟩
        cases rounds with
        | cons first others => exact ⟨⟨_, first⟩, _, others⟩
      · rintro ⟨⟨b, first⟩, bs, others⟩
        exact ⟨b :: bs, .cons first others⟩

/-- Each result of a loop is that of one of its rounds. -/
theorem round_of_mem {R : α → β → Prop} {as : List α} {bs : List β}
    (rounds : List.Forall₂ R as bs) {b : β} (member : b ∈ bs) : ∃ a ∈ as, R a b := by
  induction rounds with
  | nil => exact absurd member List.not_mem_nil
  | @cons a b' as bs first _ ih =>
      rcases List.mem_cons.mp member with rfl | member
      · exact ⟨a, List.mem_cons_self, first⟩
      · obtain ⟨a', found, related⟩ := ih member
        exact ⟨a', List.mem_cons_of_mem a found, related⟩

/-- Each item of a loop has a round. -/
theorem round_from_mem {R : α → β → Prop} {as : List α} {bs : List β}
    (rounds : List.Forall₂ R as bs) {a : α} (member : a ∈ as) : ∃ b ∈ bs, R a b :=
  round_of_mem rounds.flip member

/-- Each item of a loop has a round at its position. -/
theorem round_at {R : α → β → Prop} {as : List α} {bs : List β}
    (rounds : List.Forall₂ R as bs) {n : Nat} {a : α} (held : as[n]? = some a) :
    ∃ b, bs[n]? = some b ∧ R a b := by
  induction rounds generalizing n with
  | nil => cases held
  | @cons a' b as bs first _ ih =>
      cases n with
      | zero =>
          obtain rfl := Option.some.inj held
          exact ⟨b, rfl, first⟩
      | succ n => exact ih held

/-- Two loops one after the other: each item has a round in both. -/
theorem forall₂_comp {γ : Type} {R : α → β → Prop} {S : β → γ → Prop} {T : α → γ → Prop}
    {as : List α} {bs : List β} {cs : List γ} (first : List.Forall₂ R as bs)
    (second : List.Forall₂ S bs cs) (both : ∀ a b c, R a b → S b c → T a c) :
    List.Forall₂ T as cs := by
  induction first generalizing cs with
  | nil =>
      cases second
      exact .nil
  | cons pair _ ih =>
      cases second with
      | cons next others => exact .cons (both _ _ _ pair next) (ih others)

/-- Whatever the computation fails with is as `P` says. -/
def Fails (x : Except ε α) (P : ε → Prop) : Prop :=
  ∀ e, x = .error e → P e

theorem Fails.imp {x : Except ε α} {P Q : ε → Prop} (fails : Fails x P) (wider : ∀ e, P e → Q e) :
    Fails x Q :=
  fun e failed => wider e (fails e failed)

theorem fails_pure (a : α) (P : ε → Prop) : Fails (pure a) P := by
  intro e impossible
  cases impossible

theorem Fails.bind {x : Except ε α} {f : α → Except ε β} {P : ε → Prop} (first : Fails x P)
    (next : ∀ a, Fails (f a) P) : Fails (x >>= f) P := by
  intro e failed
  cases x with
  | error e' =>
      cases failed
      exact first e rfl
  | ok a => exact next a e failed

theorem Fails.mapM {f : α → Except ε β} {P : ε → Prop} {as : List α}
    (each : ∀ a ∈ as, Fails (f a) P) : Fails (as.mapM f) P := by
  induction as with
  | nil => exact fails_pure [] P
  | cons a as ih =>
      rw [List.mapM_cons]
      have others := ih fun b member => each b (List.mem_cons_of_mem a member)
      exact (each a List.mem_cons_self).bind fun b => others.bind fun bs => fails_pure (b :: bs) P

/-! ## Failing with a state that stays -/

theorem run_bind (x : ExceptT ε (StateM σ) α) (f : α → ExceptT ε (StateM σ) β) (s : σ) :
    (x >>= f).run s =
      match x.run s with
      | (.ok a, s') => (f a).run s'
      | (.error e, s') => (.error e, s') := by
  show (match x s with | (result, s') => ExceptT.bindCont f result s') =
    match x s with
      | (.ok a, s') => (f a).run s'
      | (.error e, s') => (.error e, s')
  rcases x s with ⟨e | a, s'⟩
  · rfl
  · rfl

theorem run_get (s : σ) : (get : ExceptT ε (StateM σ) σ).run s = (.ok s, s) :=
  rfl

theorem run_bind_eq_ok {x : ExceptT ε (StateM σ) α} {f : α → ExceptT ε (StateM σ) β}
    {s s' : σ} {b : β} :
    (x >>= f).run s = (.ok b, s') ↔
      ∃ a middle, x.run s = (.ok a, middle) ∧ (f a).run middle = (.ok b, s') := by
  rw [run_bind]
  cases ran : x.run s with
  | mk result middle =>
      cases result with
      | error e =>
          constructor
          · intro impossible
            cases impossible
          · rintro ⟨_, _, impossible, _⟩
            cases impossible
      | ok a =>
          constructor
          · intro rest
            exact ⟨a, middle, rfl, rest⟩
          · rintro ⟨_, _, same, rest⟩
            cases same
            exact rest

theorem run_bind_eq_error {x : ExceptT ε (StateM σ) α} {f : α → ExceptT ε (StateM σ) β}
    {s s' : σ} {e : ε} :
    (x >>= f).run s = (.error e, s') ↔ x.run s = (.error e, s') ∨
      ∃ a middle, x.run s = (.ok a, middle) ∧ (f a).run middle = (.error e, s') := by
  rw [run_bind]
  cases ran : x.run s with
  | mk result middle =>
      cases result with
      | error e' =>
          constructor
          · intro same
            cases same
            exact .inl rfl
          · rintro (same | ⟨_, _, impossible, _⟩)
            · cases same
              rfl
            · cases impossible
      | ok a =>
          constructor
          · intro rest
            exact .inr ⟨a, middle, rfl, rest⟩
          · rintro (impossible | ⟨_, _, same, rest⟩)
            · cases impossible
            · cases same
              exact rest

theorem run_pure_eq_ok {a b : α} {s s' : σ} :
    (pure a : ExceptT ε (StateM σ) α).run s = (.ok b, s') ↔ a = b ∧ s = s' := by
  constructor
  · intro same
    cases same
    exact ⟨rfl, rfl⟩
  · rintro ⟨rfl, rfl⟩
    rfl

/-! ## What a computation does -/

/-- The rounds of a loop over a list: each takes a state, handles an item and hands a state
to the next. -/
inductive Rounds (R : σ → α → β → σ → Prop) : σ → List α → List β → σ → Prop where
  | nil (s : σ) : Rounds R s [] [] s
  | cons {s middle s' : σ} {a : α} {b : β} {as : List α} {bs : List β}
      (first : R s a b middle) (rest : Rounds R middle as bs s') : Rounds R s (a :: as) (b :: bs) s'

theorem Rounds.imp {R S : σ → α → β → σ → Prop} {s s' : σ} {as : List α} {bs : List β}
    (rounds : Rounds R s as bs s') (wider : ∀ s a b s', R s a b s' → S s a b s') :
    Rounds S s as bs s' := by
  induction rounds with
  | nil s => exact .nil s
  | cons first _ ih => exact .cons (wider _ _ _ _ first) ih

theorem Rounds.append {R : σ → α → β → σ → Prop} {s middle s' : σ} {as as' : List α}
    {bs bs' : List β} (rounds : Rounds R s as bs middle) (more : Rounds R middle as' bs' s') :
    Rounds R s (as ++ as') (bs ++ bs') s' := by
  induction rounds with
  | nil s => exact more
  | cons first _ ih => exact .cons first (ih more)

/-- The rounds without their states. -/
theorem Rounds.forall₂ {R : σ → α → β → σ → Prop} {S : α → β → Prop} {s s' : σ} {as : List α}
    {bs : List β} (rounds : Rounds R s as bs s') (wider : ∀ s a b s', R s a b s' → S a b) :
    List.Forall₂ S as bs := by
  induction rounds with
  | nil s => exact .nil
  | cons first _ ih => exact .cons (wider _ _ _ _ first) ih

/-- Rounds on items that were made of others are rounds on those. -/
theorem Rounds.comp_left {R S : σ → α → β → σ → Prop} {P : α → α → Prop} {s s' : σ}
    {as made : List α} {bs : List β} (rounds : Rounds R s made bs s')
    (pairs : List.Forall₂ P as made)
    (joined : ∀ s a a' b s', P a a' → R s a' b s' → S s a b s') : Rounds S s as bs s' := by
  induction rounds generalizing as with
  | nil s =>
      cases pairs
      exact .nil s
  | cons first _ ih =>
      cases pairs with
      | cons pair others => exact .cons (joined _ _ _ _ _ pair first) (ih others)

/-- The computation succeeds exactly as `P` says, seen through `view`. -/
def Does (view : σ → τ) (x : ExceptT ε (StateM σ) α) (P : τ → α → τ → Prop) : Prop :=
  ∀ s a t, (∃ s', x.run s = (.ok a, s') ∧ view s' = t) ↔ P (view s) a t

section Does

variable {view : σ → τ} {x : ExceptT ε (StateM σ) α}

theorem Does.congr {P Q : τ → α → τ → Prop} (does : Does view x P)
    (same : ∀ t a t', P t a t' ↔ Q t a t') : Does view x Q :=
  fun s a t => (does s a t).trans (same (view s) a t)

theorem Does.of_run {P : τ → α → τ → Prop} (does : Does view x P) {s s' : σ} {a : α}
    (ran : x.run s = (.ok a, s')) : P (view s) a (view s') :=
  (does s a (view s')).mp ⟨s', ran, rfl⟩

theorem does_pure (a : α) :
    Does view (pure a : ExceptT ε (StateM σ) α) fun t b t' => b = a ∧ t' = t := by
  intro s b t
  constructor
  · rintro ⟨s', ran, rfl⟩
    obtain ⟨rfl, rfl⟩ := run_pure_eq_ok.mp ran
    exact ⟨rfl, rfl⟩
  · rintro ⟨rfl, rfl⟩
    exact ⟨s, rfl, rfl⟩

theorem does_throw (e : ε) :
    Does view (throw e : ExceptT ε (StateM σ) α) fun _ _ _ => False := by
  intro s b t
  constructor
  · rintro ⟨s', ran, -⟩
    cases ran
  · exact False.elim

theorem Does.bind {f : α → ExceptT ε (StateM σ) β} {P : τ → α → τ → Prop}
    {Q : α → τ → β → τ → Prop} (first : Does view x P) (next : ∀ a, Does view (f a) (Q a)) :
    Does view (x >>= f) fun t b t' => ∃ a middle, P t a middle ∧ Q a middle b t' := by
  intro s b t
  constructor
  · rintro ⟨s', ran, rfl⟩
    obtain ⟨a, middle, ranFirst, ranNext⟩ := run_bind_eq_ok.mp ran
    exact ⟨a, view middle, first.of_run ranFirst, (next a).of_run ranNext⟩
  · rintro ⟨a, middle, did, didNext⟩
    obtain ⟨s', ranFirst, rfl⟩ := (first s a middle).mpr did
    obtain ⟨s'', ranNext, rfl⟩ := (next a s' b t).mpr didNext
    exact ⟨s'', run_bind_eq_ok.mpr ⟨a, s', ranFirst, ranNext⟩, rfl⟩

/-- A computation that starts by looking at the whole state. -/
theorem does_get {f : σ → ExceptT ε (StateM σ) α} {P : τ → α → τ → Prop}
    (each : ∀ s a t, (∃ s', (f s).run s = (.ok a, s') ∧ view s' = t) ↔ P (view s) a t) :
    Does view (get >>= f) P :=
  each

theorem Does.ite {c : Prop} [Decidable c] {y : ExceptT ε (StateM σ) α}
    {P Q : τ → α → τ → Prop} (yes : Does view x P) (no : Does view y Q) :
    Does view (if c then x else y) fun t a t' => c ∧ P t a t' ∨ ¬ c ∧ Q t a t' := by
  by_cases holds : c
  · rw [if_pos holds]
    exact yes.congr fun t a t' => by simp [holds]
  · rw [if_neg holds]
    exact no.congr fun t a t' => by simp [holds]

theorem Does.mapM {f : α → ExceptT ε (StateM σ) β} {P : τ → α → β → τ → Prop}
    (each : ∀ a, Does view (f a) fun t b t' => P t a b t') (as : List α) :
    Does view (as.mapM f) fun t bs t' => Rounds P t as bs t' := by
  induction as with
  | nil =>
      refine (does_pure []).congr fun t bs t' => ?_
      constructor
      · rintro ⟨rfl, rfl⟩
        exact .nil _
      · intro rounds
        cases rounds
        exact ⟨rfl, rfl⟩
  | cons a as ih =>
      rw [List.mapM_cons]
      refine ((each a).bind fun b => ih.bind fun bs => does_pure (b :: bs)).congr fun t bs t' => ?_
      constructor
      · rintro ⟨b, middle, first, bs', last, rest, rfl, rfl⟩
        exact .cons first rest
      · intro rounds
        cases rounds with
        | cons first rest => exact ⟨_, _, first, _, _, rest, rfl, rfl⟩

/-- A loop that leaves items out: of each round a result or nothing. -/
theorem Does.filterMapM {f : α → ExceptT ε (StateM σ) (Option β)}
    {P : τ → α → Option β → τ → Prop} (each : ∀ a, Does view (f a) fun t b t' => P t a b t')
    (as : List α) :
    Does view (as.filterMapM f) fun t kept t' =>
      ∃ bs, Rounds P t as bs t' ∧ kept = bs.reduceOption := by
  induction as with
  | nil =>
      refine (does_pure []).congr fun t kept t' => ?_
      constructor
      · rintro ⟨rfl, rfl⟩
        exact ⟨[], .nil _, rfl⟩
      · rintro ⟨bs, rounds, rfl⟩
        cases rounds
        exact ⟨rfl, rfl⟩
  | cons a as ih =>
      rw [List.filterMapM_cons]
      refine ((each a).bind fun b => ?_ : Does view _ fun t kept t' =>
        ∃ b middle, P t a b middle ∧ ∃ bs, Rounds P middle as bs t' ∧
          kept = (b :: bs).reduceOption).congr fun t kept t' => ?_
      · cases b with
        | none => exact ih
        | some b =>
            refine (ih.bind fun others => does_pure (b :: others)).congr fun t kept t' => ?_
            constructor
            · rintro ⟨others, middle, ⟨bs, rounds, rfl⟩, rfl, rfl⟩
              exact ⟨bs, rounds, rfl⟩
            · rintro ⟨bs, rounds, rfl⟩
              exact ⟨_, _, ⟨bs, rounds, rfl⟩, rfl, rfl⟩
      · constructor
        · rintro ⟨b, middle, first, bs, rounds, rfl⟩
          exact ⟨b :: bs, .cons first rounds, rfl⟩
        · rintro ⟨bs, rounds, rfl⟩
          cases rounds with
          | cons first rest => exact ⟨_, _, first, _, rest, rfl⟩

end Does

end Downlevel.Sequencing
