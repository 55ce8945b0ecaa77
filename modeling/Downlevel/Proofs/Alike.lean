/-
# Downlevel.Proofs.Alike — two runs side by side

`Alike T x y` says that the computations `x` and `y` give the same result, be it a success or a
failure, whenever they start in states that `T` relates, and that `T` relates the states they
leave. It is put together along `bind` and the loops.

For the work on call sites `T` relates the standings of two runs, which may differ in their
surroundings, their worlds and their bootstrap tables. `Coupled` says what `T` has to withstand:
the answers of the two surroundings, and growth of the pool. The result of lowering a class is
then the same in both (`lower_alike`).

A single run is one beside itself, so an invariant of the work is a relation of this kind, too.
-/
import Downlevel.Proofs.Outcome

namespace Downlevel

set_option autoImplicit false

namespace Sequencing

variable {ε σ σ' α β : Type}

/-- The same result from related states, and related states after it. -/
def Alike (T : σ → σ' → Prop) (x : ExceptT ε (StateM σ) α) (y : ExceptT ε (StateM σ') α) : Prop :=
  ∀ s s', T s s' → (x.run s).1 = (y.run s').1 ∧ T (x.run s).2 (y.run s').2

section Alike

variable {T : σ → σ' → Prop} {x : ExceptT ε (StateM σ) α} {y : ExceptT ε (StateM σ') α}

theorem alike_pure (a : α) :
    Alike T (pure a : ExceptT ε (StateM σ) α) (pure a : ExceptT ε (StateM σ') α) :=
  fun _ _ related => ⟨rfl, related⟩

theorem alike_throw (e : ε) :
    Alike T (throw e : ExceptT ε (StateM σ) α) (throw e : ExceptT ε (StateM σ') α) :=
  fun _ _ related => ⟨rfl, related⟩

/-- What comes next has to agree on what the first parts can come to. -/
theorem Alike.bind_of {f : α → ExceptT ε (StateM σ) β} {g : α → ExceptT ε (StateM σ') β}
    (first : Alike T x y)
    (next : ∀ a, (∃ s s' middle, T s s' ∧ x.run s = (.ok a, middle)) → Alike T (f a) (g a)) :
    Alike T (x >>= f) (y >>= g) := by
  intro s s' related
  have after := first s s' related
  rw [run_bind, run_bind]
  rcases ran : x.run s with ⟨result, middle⟩
  rcases ran' : y.run s' with ⟨result', middle'⟩
  rw [ran, ran'] at after
  obtain ⟨rfl, still⟩ := after
  cases result with
  | error e => exact ⟨rfl, still⟩
  | ok a => exact next a ⟨s, s', middle, related, ran⟩ middle middle' still

theorem Alike.bind {f : α → ExceptT ε (StateM σ) β} {g : α → ExceptT ε (StateM σ') β}
    (first : Alike T x y) (next : ∀ a, Alike T (f a) (g a)) : Alike T (x >>= f) (y >>= g) :=
  first.bind_of fun a _ => next a

theorem Alike.ite {c : Prop} [Decidable c] {x' : ExceptT ε (StateM σ) α}
    {y' : ExceptT ε (StateM σ') α} (yes : Alike T x y) (no : Alike T x' y') :
    Alike T (if c then x else x') (if c then y else y') := by
  by_cases holds : c
  · rw [if_pos holds, if_pos holds]
    exact yes
  · rw [if_neg holds, if_neg holds]
    exact no

theorem Alike.mapM {f : α → ExceptT ε (StateM σ) β} {g : α → ExceptT ε (StateM σ') β}
    {as : List α} (each : ∀ a ∈ as, Alike T (f a) (g a)) : Alike T (as.mapM f) (as.mapM g) := by
  induction as with
  | nil => exact alike_pure []
  | cons a as ih =>
      rw [List.mapM_cons, List.mapM_cons]
      have others := ih fun b member => each b (List.mem_cons_of_mem a member)
      exact (each a List.mem_cons_self).bind fun b => others.bind fun bs => alike_pure (b :: bs)

theorem Alike.filterMapM {f : α → ExceptT ε (StateM σ) (Option β)}
    {g : α → ExceptT ε (StateM σ') (Option β)} (each : ∀ a, Alike T (f a) (g a)) (as : List α) :
    Alike T (as.filterMapM f) (as.filterMapM g) := by
  induction as with
  | nil => exact alike_pure []
  | cons a as ih =>
      rw [List.filterMapM_cons, List.filterMapM_cons]
      refine (each a).bind fun b => ?_
      cases b with
      | none => exact ih
      | some b => exact ih.bind fun others => alike_pure (b :: others)

end Alike

end Sequencing

open Sequencing

/-! ## Notes -/

namespace Noted

variable {α : Type}

/-- The result does not depend on the notes that were taken before. -/
def Indifferent (x : Noted α) : Prop :=
  Alike (fun _ _ => True) x x

theorem indifferent_write (note : Note) : (write note).Indifferent :=
  fun _ _ _ => ⟨rfl, trivial⟩

theorem indifferent_check (result : Except Malformed α) : (check result).Indifferent := by
  cases result with
  | ok a => exact alike_pure a
  | error e => exact fun _ _ _ => ⟨rfl, trivial⟩

end Noted

theorem ClassFile.indifferent_tidyBootstrap (c : ClassFile) : c.tidyBootstrap.Indifferent := by
  have events (positions : List Nat) (f : Nat → Noted Unit) (each : ∀ n, (f n).Indifferent) :
      (positions.forM f).Indifferent := by
    induction positions with
    | nil => exact alike_pure ()
    | cons n positions ih => exact (each n).bind fun _ => ih
  have sift (a : Attribute) : (a.unlessBootstrap c.pool).Indifferent :=
    (Noted.indifferent_check _).bind fun _ =>
      ((Noted.indifferent_write _).bind fun _ => alike_pure none).ite (alike_pure (some a))
  unfold ClassFile.tidyBootstrap
  refine (Noted.indifferent_check _).bind fun code => (alike_pure c).ite ?_
  refine (Alike.filterMapM sift c.attributes).bind fun attributes => (alike_pure _).ite ?_
  exact (events _ _ fun n => Noted.indifferent_write _).bind fun _ => alike_pure _

/-! ## Requests

What a request for a factory comes to: an answer for a class that is known, after a class that
is not known was looked up. -/

variable {ω ω' : Type}

namespace Scope

section Run

variable (scope : Scope) (around : Surroundings ω) (site : CallSite) {work : Work ω}

theorem run_requestFactory_known {handle : ClassHandle} (known : work.owner = some handle) :
    (scope.requestFactory around site).run work =
      ((around.nameFactory ⟨handle, site⟩ work.numbering work.world).1.mapError
          (Failure.refused scope.owner site),
        { work with
          numbering := (around.nameFactory ⟨handle, site⟩ work.numbering work.world).2.1
          world := (around.nameFactory ⟨handle, site⟩ work.numbering work.world).2.2 }) := by
  have found : (scope.ownerHandle around).run work = (.ok handle, work) := by
    simp only [ownerHandle, run_bind, run_get, known]
    rfl
  rcases answered : around.nameFactory ⟨handle, site⟩ work.numbering work.world with
    ⟨refusal | factory, numbering, world⟩
  · simp only [requestFactory, run_bind, found, run_get, answered]
    rfl
  · simp only [requestFactory, run_bind, found, run_get, answered]
    rfl

theorem run_requestFactory_found {handle : ClassHandle} (unknown : work.owner = none)
    (found : (around.resolve scope.owner work.world).1 = .ok handle) :
    (scope.requestFactory around site).run work =
      (scope.requestFactory around site).run
        { work with
          world := (around.resolve scope.owner work.world).2.2
          notes := work.notes ++
            ((around.resolve scope.owner work.world).2.1.map Note.event).toArray
          owner := some handle } := by
  rcases answered : around.resolve scope.owner work.world with ⟨result, events, world⟩
  rw [answered] at found
  obtain rfl : result = .ok handle := found
  simp only [requestFactory, run_bind, ownerHandle, run_get, unknown, answered]
  rfl

theorem run_requestFactory_missing {e : ResolutionError} (unknown : work.owner = none)
    (missing : (around.resolve scope.owner work.world).1 = .error e) :
    (scope.requestFactory around site).run work =
      (.error (.unresolved e),
        { work with
          world := (around.resolve scope.owner work.world).2.2
          notes := work.notes ++
            ((around.resolve scope.owner work.world).2.1.map Note.event).toArray }) := by
  rcases answered : around.resolve scope.owner work.world with ⟨result, events, world⟩
  rw [answered] at missing
  obtain rfl : result = .error e := missing
  simp only [requestFactory, run_bind, ownerHandle, run_get, unknown, answered]
  rfl

end Run

end Scope

/-! ## Steps -/

/-- The standings of two works are related. -/
def Work.Both (T : Standing ω → Standing ω' → Prop) (work : Work ω) (work' : Work ω') : Prop :=
  T work.standing work'.standing

section Steps

variable {α : Type} {T : Standing ω → Standing ω' → Prop}

theorem Step.alike_emit (level : Level) (message : String) (fields : List (String × String)) :
    Alike (Work.Both T) (Step.emit level message fields) (Step.emit level message fields) :=
  fun _ _ related => ⟨rfl, related⟩

theorem Step.alike_check (result : Except Malformed α) :
    Alike (Work.Both T) (Step.check result) (Step.check result) := by
  cases result with
  | ok a => exact alike_pure a
  | error e => exact fun _ _ related => ⟨rfl, related⟩

theorem Step.alike_look {f g : Pool → Except Malformed α}
    (same : ∀ t t', T t t' → f t.pool = g t'.pool) :
    Alike (Work.Both T) (Step.look f) (Step.look g) := by
  intro work work' related
  have looked : f work.pool = g work'.pool := same _ _ related
  show ((Step.check (f work.pool)).run work).1 = ((Step.check (g work'.pool)).run work').1 ∧
    Work.Both T ((Step.check (f work.pool)).run work).2 ((Step.check (g work'.pool)).run work').2
  rw [looked]
  exact Step.alike_check _ work work' related

theorem Step.alike_edit (e : Pool.Edit α)
    (edits : ∀ t t', T t t' → t.pool = t'.pool ∧
      T ⟨t.inquiry, (e.run t.pool).2⟩ ⟨t'.inquiry, (e.run t.pool).2⟩) :
    Alike (Work.Both T) (Step.edit e) (Step.edit e) := by
  intro work work' related
  obtain ⟨same, after⟩ := edits _ _ related
  have same : work.pool = work'.pool := same
  rcases ran : e.run work.pool with ⟨(_ | length) | a, pool⟩
  all_goals
    simp only [Step.edit, run_bind, run_get, ← same, ran]
    simp only [Work.standing, ran] at after
    exact ⟨rfl, after⟩

end Steps

/-! ## Call sites -/

/-- The relation withstands what the two surroundings answer, and growth of the pool. -/
structure Coupled (around : Surroundings ω) (around' : Surroundings ω') (owner : String)
    (T : Standing ω → Standing ω' → Prop) : Prop where
  pool {t : Standing ω} {t' : Standing ω'} (related : T t t') : t.pool = t'.pool
  known {t : Standing ω} {t' : Standing ω'} (related : T t t') :
    t.inquiry.owner = t'.inquiry.owner
  /-- The class is looked up with the same answer. -/
  resolve {t : Standing ω} {t' : Standing ω'} (related : T t t')
    (unknown : t.inquiry.owner = none) :
    (around.resolve owner t.inquiry.world).1 = (around'.resolve owner t'.inquiry.world).1 ∧
      ∀ handle, T
        ⟨⟨handle, t.inquiry.numbering, (around.resolve owner t.inquiry.world).2.2⟩, t.pool⟩
        ⟨⟨handle, t'.inquiry.numbering, (around'.resolve owner t'.inquiry.world).2.2⟩, t'.pool⟩
  /-- A factory is named with the same answer. -/
  name {t : Standing ω} {t' : Standing ω'} (related : T t t') (request : Request) :
    let told := around.nameFactory request t.inquiry.numbering t.inquiry.world
    let told' := around'.nameFactory request t'.inquiry.numbering t'.inquiry.world
    told.1 = told'.1 ∧ T ⟨⟨t.inquiry.owner, told.2.1, told.2.2⟩, t.pool⟩
      ⟨⟨t'.inquiry.owner, told'.2.1, told'.2.2⟩, t'.pool⟩
  grow {t : Standing ω} {t' : Standing ω'} (related : T t t') {pool : Pool}
    (grown : Pool.Grown t.pool pool) : T ⟨t.inquiry, pool⟩ ⟨t'.inquiry, pool⟩

namespace Coupled

variable {around : Surroundings ω} {around' : Surroundings ω'} {owner : String}
  {T : Standing ω → Standing ω' → Prop} (coupled : Coupled around around' owner T)
  {table table' : List BootstrapMethod} {method : String}
include coupled

/-- For a class that is known, both surroundings are asked at once. -/
theorem request_known (site : CallSite) {work : Work ω} {work' : Work ω'} {handle : ClassHandle}
    (related : Work.Both T work work') (known : work.owner = some handle) :
    ((Scope.requestFactory ⟨owner, table, method⟩ around site).run work).1 =
        ((Scope.requestFactory ⟨owner, table', method⟩ around' site).run work').1 ∧
      Work.Both T ((Scope.requestFactory ⟨owner, table, method⟩ around site).run work).2
        ((Scope.requestFactory ⟨owner, table', method⟩ around' site).run work').2 := by
  have known' : work'.owner = some handle := (coupled.known related).symm.trans known
  rw [Scope.run_requestFactory_known _ around site known,
    Scope.run_requestFactory_known _ around' site known']
  obtain ⟨same, after⟩ := coupled.name related ⟨handle, site⟩
  exact ⟨congrArg (Except.mapError _) same, after⟩

theorem alike_requestFactory (site : CallSite) :
    Alike (Work.Both T) (Scope.requestFactory ⟨owner, table, method⟩ around site)
      (Scope.requestFactory ⟨owner, table', method⟩ around' site) := by
  intro work work' related
  cases known : work.owner with
  | some handle => exact coupled.request_known site related known
  | none =>
      have unknown : work'.owner = none := (coupled.known related).symm.trans known
      obtain ⟨same, after⟩ := coupled.resolve related known
      cases answer : (around.resolve owner work.world).1 with
      | error e =>
          rw [Scope.run_requestFactory_missing ⟨owner, table, method⟩ around site known answer,
            Scope.run_requestFactory_missing ⟨owner, table', method⟩ around' site unknown
              (same.symm.trans answer)]
          refine ⟨rfl, ?_⟩
          have left := after none
          unfold Work.Both Work.standing
          simp only [known, unknown]
          exact left
      | ok handle =>
          rw [Scope.run_requestFactory_found ⟨owner, table, method⟩ around site known answer,
            Scope.run_requestFactory_found ⟨owner, table', method⟩ around' site unknown
              (same.symm.trans answer)]
          exact coupled.request_known site (after (some handle)) rfl

omit coupled in
theorem alike_checkFactory (site : CallSite) (factory : Factory) :
    Alike (Work.Both T) (Scope.checkFactory site factory) (Scope.checkFactory site factory) :=
  (Step.alike_check _).bind fun _ => (alike_pure ()).ite (alike_throw _)

theorem alike_substitute (site : CallSite) :
    Alike (Work.Both T) (Scope.substitute ⟨owner, table, method⟩ around site)
      (Scope.substitute ⟨owner, table', method⟩ around' site) := by
  refine (coupled.alike_requestFactory site).bind fun factory =>
    (alike_checkFactory site factory).bind fun _ =>
      (Step.alike_edit _ fun t t' related => ⟨coupled.pool related, coupled.grow related ?_⟩).bind
        fun index => (Step.alike_emit _ _ _).bind fun _ => alike_pure index
  exact Pool.grows_internMethodRef factory.owner factory.name factory.descriptor t.pool

/-- An instruction that both tables judge alike. -/
theorem alike_replacement {p : Placed}
    (judges : ∀ t t', T t t' → ∀ index, p.instruction = .dynamicCall index →
      judge table index t.pool = judge table' index t'.pool) :
    Alike (Work.Both T) (Scope.replacement ⟨owner, table, method⟩ around p)
      (Scope.replacement ⟨owner, table', method⟩ around' p) := by
  obtain ⟨offset, instruction⟩ := p
  cases instruction with
  | dynamicCall index =>
      refine (Step.alike_look fun t t' related => judges t t' related index rfl).bind
        fun judged => ?_
      cases judged with
      | lambda site =>
          exact (coupled.alike_substitute site).bind fun reference => alike_pure (some reference)
      | foreign text handle => exact (Step.alike_emit _ _ _).bind fun _ => alike_pure none
  | _ => exact alike_pure none

end Coupled

/-! ## Methods -/

section Methods

variable {around : Surroundings ω} {around' : Surroundings ω'} {owner : String}
  {T : Standing ω → Standing ω' → Prop} (pools : ∀ t t', T t t' → t.pool = t'.pool)
  {table table' : List BootstrapMethod}
include pools

theorem Member.alike_substituteInfo {method : String} {info : Bytes}
    (each : ∀ body code, Body.parse info = .ok body → decode body.code = .ok code → ∀ p ∈ code,
      Alike (Work.Both T) (Scope.replacement ⟨owner, table, method⟩ around p)
        (Scope.replacement ⟨owner, table', method⟩ around' p)) :
    Alike (Work.Both T) (Member.substituteInfo ⟨owner, table, method⟩ around info)
      (Member.substituteInfo ⟨owner, table', method⟩ around' info) := by
  refine (Step.alike_check _).bind_of fun body ⟨_, _, _, _, ran⟩ => ?_
  obtain ⟨parsed, -⟩ := (Step.does_check (Body.parse info)).of_run ran
  refine (Step.alike_check _).bind_of fun code ⟨_, _, _, _, ran⟩ => ?_
  obtain ⟨decoded, -⟩ := (Step.does_check (decode body.code)).of_run ran
  refine (Alike.mapM (each body code parsed decoded)).bind fun calls => (alike_pure info).ite ?_
  -- The body is laid out anew by the pool as it is then, and both have the same.
  intro work work' related
  have same : work.pool = work'.pool := pools _ _ related
  simp only [run_bind, run_get, ← same]
  cases body.rebuild code calls work.pool with
  | error failure => exact ⟨rfl, related⟩
  | ok rebuilt =>
      exact ((Step.alike_check rebuilt).bind fun body' => alike_pure body'.write) work work' related

theorem Member.alike_substitute {m : Member}
    (each : ∀ t t', T t t' → ∀ method code, m.instructions t.pool = .ok code → ∀ p ∈ code,
      Alike (Work.Both T) (Scope.replacement ⟨owner, table, method⟩ around p)
        (Scope.replacement ⟨owner, table', method⟩ around' p)) :
    Alike (Work.Both T) (m.substitute owner table around) (m.substitute owner table' around') := by
  have looked {β : Type} (f : Pool → Except Malformed β) (t : Standing ω) (t' : Standing ω')
      (related : T t t') : f t.pool = f t'.pool := by
    rw [pools t t' related]
  refine (Step.alike_look (looked m.signature)).bind fun method =>
    (Step.alike_look (looked m.bodyPosition)).bind_of fun place ⟨work, work', _, related, ran⟩ => ?_
  obtain ⟨positioned, -⟩ := (Step.does_look m.bodyPosition).of_run ran
  cases place with
  | none => exact alike_pure m
  | some n =>
      obtain ⟨a, held, -⟩ := Attribute.getElem?_of_position positioned
      simp only [held]
      refine (Member.alike_substituteInfo pools fun body code parsed decoded => ?_).bind
        fun info => alike_pure _
      refine each _ _ related method code (Member.instructions_eq_ok.mpr (.inr ⟨a.info, body, ?_⟩))
      exact ⟨bodyInfo_eq_some.mpr ⟨n, a, positioned, held, rfl⟩, parsed, decoded⟩

end Methods

/-! ## Classes -/

/-- Lowering a class in two surroundings, along a relation that holds at the beginning and that
the work on each of the methods keeps: the results are the same, and what the surroundings
are left with is related. -/
theorem lower_alike {around : Surroundings ω} {around' : Surroundings ω'} {target : Version}
    {bytes : Bytes} {numbering numbering' : Numbering} {world : ω} {world' : ω'}
    {T : Prepared → Standing ω → Standing ω' → Prop}
    {Q : Numbering → ω → Numbering → ω' → Prop}
    (pools : ∀ p t t', T p t t' → t.pool = t'.pool)
    (begun : Q numbering world numbering' world')
    (ended : ∀ p t t', T p t t' →
      Q t.inquiry.numbering t.inquiry.world t'.inquiry.numbering t'.inquiry.world)
    (prepared : ∀ p notes, (prepare target bytes).run #[] = (.ok p, notes) →
      T p ⟨⟨none, numbering, world⟩, p.classFile.pool⟩
          ⟨⟨none, numbering', world'⟩, p.classFile.pool⟩ ∧
        ∀ m ∈ p.classFile.methods, Alike (Work.Both (T p)) (m.substitute p.owner p.table around)
          (m.substitute p.owner p.table around')) :
    (lower around target bytes numbering world).result =
        (lower around' target bytes numbering' world').result ∧
      Q (lower around target bytes numbering world).numbering
        (lower around target bytes numbering world).world
        (lower around' target bytes numbering' world').numbering
        (lower around' target bytes numbering' world').world := by
  unfold lower
  rcases ran : (prepare target bytes).run #[] with ⟨e | p, notes⟩
  · exact ⟨rfl, begun⟩
  · obtain ⟨related, methods⟩ := prepared p notes ran
    have after := Alike.mapM methods ⟨world, numbering, notes, none, p.classFile.pool⟩
      ⟨world', numbering', notes, none, p.classFile.pool⟩ related
    simp only
    generalize (p.classFile.methods.mapM (Member.substitute p.owner p.table around)).run
        ⟨world, numbering, notes, none, p.classFile.pool⟩ = work,
      (p.classFile.methods.mapM (Member.substitute p.owner p.table around')).run
        ⟨world', numbering', notes, none, p.classFile.pool⟩ = work' at after
    obtain ⟨result, work⟩ := work
    obtain ⟨result', work'⟩ := work'
    obtain ⟨rfl, still⟩ := after
    cases result with
    | error failure => exact ⟨rfl, ended p _ _ still⟩
    | ok replaced =>
        have same : work.pool = work'.pool := pools p _ _ still
        have tidied := ({ p.classFile with methods := replaced, pool := work.pool } :
          ClassFile).indifferent_tidyBootstrap work.notes work'.notes trivial
        simp only [← same]
        generalize ExceptT.run (ClassFile.tidyBootstrap _) work.notes = left,
          ExceptT.run (ClassFile.tidyBootstrap _) work'.notes = left' at tidied
        obtain ⟨result, taken⟩ := left
        obtain ⟨result', taken'⟩ := left'
        obtain ⟨rfl, -⟩ := tidied
        cases result with
        | error e => exact ⟨rfl, ended p _ _ still⟩
        | ok c => exact ⟨rfl, ended p _ _ still⟩

/-- A relation that withstands the surroundings of two runs, whatever the class. -/
theorem lower_coupled {around : Surroundings ω} {around' : Surroundings ω'} {target : Version}
    {bytes : Bytes} {numbering numbering' : Numbering} {world : ω} {world' : ω'}
    {T : Standing ω → Standing ω' → Prop} {Q : Numbering → ω → Numbering → ω' → Prop}
    (coupled : ∀ owner, Coupled around around' owner T)
    (begun : ∀ pool, T ⟨⟨none, numbering, world⟩, pool⟩ ⟨⟨none, numbering', world'⟩, pool⟩)
    (ended : ∀ t t', T t t' →
      Q t.inquiry.numbering t.inquiry.world t'.inquiry.numbering t'.inquiry.world) :
    (lower around target bytes numbering world).result =
        (lower around' target bytes numbering' world').result ∧
      Q (lower around target bytes numbering world).numbering
        (lower around target bytes numbering world).world
        (lower around' target bytes numbering' world').numbering
        (lower around' target bytes numbering' world').world := by
  have pools (t : Standing ω) (t' : Standing ω') (related : T t t') : t.pool = t'.pool :=
    (coupled "").pool related
  refine lower_alike (T := fun _ => T) (fun _ => pools) (ended _ _ (begun ⟨#[]⟩))
    (fun _ => ended) fun p notes _ => ⟨begun p.classFile.pool, fun m _ => ?_⟩
  refine Member.alike_substitute pools fun _ _ _ method code _ call _ =>
    (coupled p.owner).alike_replacement fun t t' related index _ => ?_
  rw [pools t t' related]

end Downlevel
