/-
# Downlevel.Proofs.Tracing — what the work on call sites asks

`Traces` says of a part of the work what it does with its lambda call sites and what it asks. The
facts about the part depend on the pool: whether it passes over everything, whether it comes to a
lambda call site, and which call sites there are. Each call site that was reached had its turn, in
order. The class is looked up before the first of them, and not again.

A part hands on to the next what it has come to, so `Traces` is put together along `bind` and the
loops: from an instruction (`traces_replacement`) to the code of a method and to the method
(`traces_substitute`).
-/
import Downlevel.Proofs.LambdaSites

namespace Downlevel

set_option autoImplicit false

open Sequencing

variable {ω : Type}

/-! ## What is asked -/

/-- What a part of the work asks, by what the pool at its beginning says of the part. -/
inductive Inquiry.Exchanged (owner : String) (passes comes ok : Prop) :
    Inquiry (ω × List Query) → List Exchange → Inquiry (ω × List Query) → Prop where
  /-- Nothing was asked before, and nothing is. -/
  | silent {q : Inquiry (ω × List Query)} (unknown : q.owner = none) (never : ¬ comes)
      (passed : ok → passes) : Exchanged owner passes comes ok q [] q
  /-- The class was looked up before. -/
  | going {q q' : Inquiry (ω × List Query)} {handle : ClassHandle} {asked : List Exchange}
      (known : q.owner = some handle) (still : q'.owner = some handle)
      (record : q'.world.2 = q.world.2 ++ asked.map .naming)
      (own : ∀ x ∈ asked, x.request.owner = handle) : Exchanged owner passes comes ok q asked q'
  /-- The class is looked up. -/
  | begun {q q' : Inquiry (ω × List Query)} {answer : Except ResolutionError ClassHandle}
      {asked : List Exchange} (unknown : q.owner = none) (came : comes)
      (known : q'.owner = answer.toOption) (found : ok → answer.isOk = true)
      (record : q'.world.2 = q.world.2 ++ .lookup owner answer :: asked.map .naming)
      (own : ∀ x ∈ asked, answer = .ok x.request.owner) : Exchanged owner passes comes ok q asked q'

namespace Inquiry.Exchanged

variable {owner : String} {passes comes passes' comes' ok ok' : Prop}
  {q middle q' : Inquiry (ω × List Query)} {asked asked' : List Exchange}

/-- A part that asks nothing. -/
theorem idle (q : Inquiry (ω × List Query)) (never : ¬ comes) (passed : ok → passes) :
    q.Exchanged owner passes comes ok [] q := by
  cases known : q.owner with
  | none => exact .silent known never passed
  | some handle =>
      exact .going known known (List.append_nil _).symm
        fun x member => absurd member List.not_mem_nil

/-- Fewer parts are said to succeed. -/
theorem weaken (exchanged : q.Exchanged owner passes comes ok asked q') (less : ok' → ok) :
    q.Exchanged owner passes comes ok' asked q' := by
  cases exchanged with
  | silent unknown never passed => exact .silent unknown never fun done => passed (less done)
  | going known still record own => exact .going known still record own
  | begun unknown came known found record own =>
      exact .begun unknown came known (fun done => found (less done)) record own

theorem congr (exchanged : q.Exchanged owner passes comes ok asked q') (passed : passes ↔ passes')
    (came : comes ↔ comes') : q.Exchanged owner passes' comes' ok asked q' := by
  rwa [← propext passed, ← propext came]

/-- Once the class is known, the pool has no say in what is asked. -/
theorem recast {handle : ClassHandle} (known : q.owner = some handle)
    (exchanged : q.Exchanged owner passes comes ok asked q') :
    q.Exchanged owner passes' comes' ok asked q' := by
  cases exchanged with
  | silent unknown _ _ => cases unknown.symm.trans known
  | going known still record own => exact .going known still record own
  | begun unknown _ _ _ _ _ => cases unknown.symm.trans known

/-- A part that succeeds and leaves the class unknown has asked nothing. -/
theorem nothing (exchanged : q.Exchanged owner passes comes True asked q')
    (unknown : q'.owner = none) : asked = [] := by
  cases exchanged with
  | silent _ _ _ => rfl
  | going _ still _ _ => cases still.symm.trans unknown
  | @begun _ answer _ _ _ known found _ _ =>
      cases answer with
      | error e => cases found trivial
      | ok handle => cases known.symm.trans unknown

/-- A part that succeeds, and another. -/
theorem trans (first : q.Exchanged owner passes comes True asked middle)
    (second : middle.Exchanged owner passes' comes' ok asked' q') :
    q.Exchanged owner (passes ∧ passes') (comes ∨ passes ∧ comes') ok (asked ++ asked') q' := by
  cases first with
  | silent unknown never passed =>
      cases second with
      | silent _ never' passed' =>
          refine .silent unknown ?_ fun done => ⟨passed trivial, passed' done⟩
          rintro (came | ⟨-, came⟩)
          · exact never came
          · exact never' came
      | going known _ _ _ => cases unknown.symm.trans known
      | begun _ came known found record own =>
          exact .begun unknown (.inr ⟨passed trivial, came⟩) known found record own
  | going known still record own =>
      cases second with
      | silent unknown _ _ => cases unknown.symm.trans still
      | going known' still' record' own' =>
          cases still.symm.trans known'
          refine .going known still' ?_
            fun x member => (List.mem_append.mp member).elim (own x) (own' x)
          rw [record', record, List.map_append, List.append_assoc]
      | begun unknown _ _ _ _ _ => cases unknown.symm.trans still
  | @begun _ answer _ unknown came known found record own =>
      cases answer with
      | error e => cases found trivial
      | ok handle =>
          cases second with
          | silent unknown' _ _ => cases unknown'.symm.trans known
          | going known' still' record' own' =>
              have left := known'.symm.trans known
              rw [← still'] at left
              cases known.symm.trans known'
              refine .begun unknown (.inl came) left (fun _ => rfl) ?_ fun x member =>
                (List.mem_append.mp member).elim (own x) fun later => ?_
              · rw [record', record, List.map_append, List.append_assoc, List.cons_append]
              · rw [own' x later]
          | begun unknown' _ _ _ _ _ => cases unknown'.symm.trans known

/-- A part that fails, and another that is not taken up. -/
theorem stop (first : q.Exchanged owner passes comes False asked middle) (stuck : ¬ passes) :
    q.Exchanged owner (passes ∧ passes') (comes ∨ passes ∧ comes') False asked middle := by
  cases first with
  | silent unknown never passed =>
      refine .silent unknown ?_ False.elim
      rintro (came | ⟨through, -⟩)
      · exact never came
      · exact stuck through
  | going known still record own => exact .going known still record own
  | begun unknown came known found record own =>
      exact .begun unknown (.inl came) known False.elim record own

/-- What is added to the record by a part that is begun with the class unknown. -/
theorem recorded (exchanged : q.Exchanged owner passes comes ok asked q')
    (unknown : q.owner = none) :
    ∃ queries, q'.world.2 = q.world.2 ++ queries ∧
      (comes ∧ (∃ answer, queries = .lookup owner answer :: asked.map .naming ∧
          ∀ x ∈ asked, answer = .ok x.request.owner) ∨
        ¬ comes ∧ queries = [] ∧ asked = []) := by
  cases exchanged with
  | silent _ never _ => exact ⟨[], (List.append_nil _).symm, .inr ⟨never, rfl, rfl⟩⟩
  | going known _ _ _ => cases unknown.symm.trans known
  | begun _ came _ _ record own => exact ⟨_, record, .inl ⟨came, _, rfl, own⟩⟩

end Inquiry.Exchanged

/-- What a part of the work does with its lambda call sites, from one standing to another. -/
def Standing.Traced (owner : String) (table : List BootstrapMethod) (passes comes : Pool → Prop)
    (calls : Pool → List Placed) (t t' : Standing (ω × List Query)) (ok : Prop) : Prop :=
  ∃ reached asked, Rounds (Placed.Turn table) t.pool reached asked t'.pool ∧
    (∀ later, Pool.Extends t'.pool later →
      reached <+: calls later ∧ (ok → reached = calls later)) ∧
    t.inquiry.Exchanged owner (passes t.pool) (comes t.pool) ok asked t'.inquiry

section Traced

variable {owner : String} {table : List BootstrapMethod} {passes comes passes' comes' : Pool → Prop}
  {calls calls' : Pool → List Placed} {t middle t' : Standing (ω × List Query)} {ok ok' : Prop}

theorem Standing.Traced.weaken (traced : t.Traced owner table passes comes calls t' ok)
    (less : ok' → ok) : t.Traced owner table passes comes calls t' ok' := by
  obtain ⟨reached, asked, turns, listed, exchanged⟩ := traced
  refine ⟨reached, asked, turns, fun later grows => ?_, exchanged.weaken less⟩
  exact ⟨(listed later grows).1, fun done => (listed later grows).2 (less done)⟩

/-- A part that asks nothing, and has no lambda call site if it succeeds. -/
theorem Standing.Traced.idle (t : Standing (ω × List Query)) (never : ¬ comes t.pool)
    (passed : ok → passes t.pool)
    (listed : ok → ∀ later, Pool.Extends t.pool later → calls later = []) :
    t.Traced owner table passes comes calls t ok :=
  ⟨[], [], .nil _,
    fun later grows => ⟨List.nil_prefix, fun done => (listed done later grows).symm⟩,
    .idle _ never passed⟩

theorem Standing.Traced.trans (first : t.Traced owner table passes comes calls middle True)
    (second : middle.Traced owner table passes' comes' calls' t' ok) :
    t.Traced owner table (fun pool => passes pool ∧ passes' pool)
      (fun pool => comes pool ∨ passes pool ∧ comes' pool)
      (fun pool => calls pool ++ calls' pool) t' ok := by
  obtain ⟨reached, asked, turns, listed, exchanged⟩ := first
  obtain ⟨reached', asked', turns', listed', exchanged'⟩ := second
  refine ⟨reached ++ reached', asked ++ asked', turns.append turns', fun later grows => ?_, ?_⟩
  · have grown := (grown_of_turns turns').extends.trans grows
    rw [(listed later grown).2 trivial]
    refine ⟨(List.prefix_append_right_inj _).mpr (listed' later grows).1, fun done => ?_⟩
    rw [(listed' later grows).2 done]
  · refine exchanged.trans ?_
    cases known : middle.inquiry.owner with
    | some handle => exact exchanged'.recast known
    | none =>
        -- Nothing was asked, so the second part finds the pool of the first.
        obtain rfl := exchanged.nothing known
        obtain ⟨inquiry, pool⟩ := middle
        cases turns
        exact exchanged'

theorem Standing.Traced.stop (first : t.Traced owner table passes comes calls middle False)
    (stuck : ¬ passes t.pool) :
    t.Traced owner table (fun pool => passes pool ∧ passes' pool)
      (fun pool => comes pool ∨ passes pool ∧ comes' pool)
      (fun pool => calls pool ++ calls' pool) middle False := by
  obtain ⟨reached, asked, turns, listed, exchanged⟩ := first
  refine ⟨reached, asked, turns, fun later grows => ⟨?_, False.elim⟩, exchanged.stop stuck⟩
  exact (listed later grows).1.trans (List.prefix_append _ _)

end Traced

/-- What a part of the work does with its lambda call sites, whatever it starts from. If it passes
over everything it succeeds, and leaves everything as it was. -/
structure Traces (owner : String) (table : List BootstrapMethod) (passes comes : Pool → Prop)
    (calls : Pool → List Placed) {α : Type} (x : Step (ω × List Query) α) : Prop where
  traced (work : Work (ω × List Query)) : work.standing.Traced owner table passes comes calls
    (x.run work).2.standing ((x.run work).1.isOk = true)
  through (work : Work (ω × List Query)) (passed : passes work.pool) :
    ∃ a work', x.run work = (.ok a, work') ∧ work'.standing = work.standing

section Traces

variable {α β : Type} {owner : String} {table : List BootstrapMethod}
  {passes comes passes' comes' : Pool → Prop} {calls calls' : Pool → List Placed}

theorem traces_pure (a : α) :
    Traces owner table (fun _ => True) (fun _ => False) (fun _ => [])
      (pure a : Step (ω × List Query) α) where
  traced _ := ⟨[], [], .nil _, fun _ _ => ⟨List.prefix_rfl, fun _ => rfl⟩,
    .idle _ not_false fun _ => trivial⟩
  through work _ := ⟨a, work, rfl, rfl⟩

theorem Traces.bind {x : Step (ω × List Query) α} {f : α → Step (ω × List Query) β}
    (first : Traces owner table passes comes calls x)
    (next : ∀ a, Traces owner table passes' comes' calls' (f a)) :
    Traces owner table (fun pool => passes pool ∧ passes' pool)
      (fun pool => comes pool ∨ passes pool ∧ comes' pool)
      (fun pool => calls pool ++ calls' pool) (x >>= f) where
  traced work := by
    have traced := first.traced work
    rw [run_bind]
    rcases ran : x.run work with ⟨e | a, middle⟩
    · rw [ran] at traced
      have stuck : ¬ passes work.pool := fun passed => by
        obtain ⟨a, work', succeeded, -⟩ := first.through work passed
        cases ran.symm.trans succeeded
      exact ((traced.weaken False.elim).stop stuck).weaken fun failed => by cases failed
    · rw [ran] at traced
      exact (traced.weaken fun _ => rfl).trans ((next a).traced middle)
  through work passed := by
    obtain ⟨a, middle, ran, same⟩ := first.through work passed.1
    have pools : middle.pool = work.pool := congrArg Standing.pool same
    obtain ⟨b, work', ran', same'⟩ := (next a).through middle (pools ▸ passed.2)
    exact ⟨b, work', run_bind_eq_ok.mpr ⟨a, middle, ran, ran'⟩, same'.trans same⟩

theorem Traces.congr {x : Step (ω × List Query) α}
    (traces : Traces owner table passes comes calls x)
    (passed : ∀ pool, passes pool ↔ passes' pool) (came : ∀ pool, comes pool ↔ comes' pool)
    (listed : ∀ pool, calls pool = calls' pool) : Traces owner table passes' comes' calls' x := by
  obtain rfl : passes = passes' := funext fun pool => propext (passed pool)
  obtain rfl : comes = comes' := funext fun pool => propext (came pool)
  obtain rfl : calls = calls' := funext listed
  exact traces

theorem Traces.mapM {passes comes : α → Pool → Prop} {calls : α → Pool → List Placed}
    {f : α → Step (ω × List Query) β}
    (each : ∀ a, Traces owner table (passes a) (comes a) (calls a) (f a)) (as : List α) :
    Traces owner table (fun pool => ∀ a ∈ as, passes a pool)
      (fun pool => Reaches (passes · pool) (comes · pool) as)
      (fun pool => as.flatMap (calls · pool)) (as.mapM f) := by
  induction as with
  | nil => exact (traces_pure []).congr (by simp) (by simp [not_reaches_nil]) (by simp)
  | cons a as ih =>
      rw [List.mapM_cons]
      refine ((each a).bind fun b => ih.bind fun bs => traces_pure (b :: bs)).congr
        (fun pool => ?_) (fun pool => ?_) fun pool => ?_
      · simp
      · simp [reaches_cons]
      · simp

end Traces

/-! ## Call sites -/

section Run

variable {α : Type} {work : Work ω}

theorem Step.run_look_ok {f : Pool → Except Malformed α} {a : α} (found : f work.pool = .ok a) :
    (Step.look f).run work = (.ok a, work) := by
  show (Step.check (f work.pool)).run work = (.ok a, work)
  rw [found]
  rfl

theorem Step.run_look_error {f : Pool → Except Malformed α} {e : Malformed}
    (failed : f work.pool = .error e) :
    (Step.look f).run work =
      (.error (.malformed e), { work with notes := work.notes ++ Noted.ofFault e }) := by
  show (Step.check (f work.pool)).run work = _
  rw [failed]
  rfl

/-- What comes next leaves everything as it stands. -/
theorem Step.standing_bind {β : Type} {x : Step ω α} {f : α → Step ω β}
    (quiet : ∀ a work, ((f a).run work).2.standing = work.standing) (work : Work ω) :
    ((x >>= f).run work).2.standing = (x.run work).2.standing := by
  rw [run_bind]
  rcases x.run work with ⟨failure | a, middle⟩
  · rfl
  · exact quiet a middle

theorem Step.isOk_of_bind {β : Type} {x : Step ω α} {f : α → Step ω β}
    (succeeded : ((x >>= f).run work).1.isOk = true) : (x.run work).1.isOk = true := by
  rw [run_bind] at succeeded
  rcases ran : x.run work with ⟨failure | a, middle⟩
  · rw [ran] at succeeded
    cases succeeded
  · rfl

theorem Step.standing_edit (e : Pool.Edit α) (work : Work ω) :
    ((Step.edit e).run work).2.standing = ⟨work.standing.inquiry, (e.run work.pool).2⟩ := by
  rcases ran : e.run work.pool with ⟨(_ | length) | a, pool⟩
  all_goals
    simp only [Step.edit, run_bind, run_get, ran]
    rfl

namespace Scope

/-- A factory that cannot be used leaves everything as it stands, and so does one that can, up to
here. -/
theorem run_checkFactory (site : CallSite) (factory : Factory) (work : Work ω) :
    if (MethodDescriptor.parse? site.descriptor).any factory.fits then
      (checkFactory site factory).run work = (.ok (), work)
    else ∃ failure work', (checkFactory site factory).run work = (.error failure, work') ∧
      work'.standing = work.standing := by
  unfold checkFactory MethodDescriptor.parse
  cases MethodDescriptor.parse? site.descriptor with
  | none => exact ⟨_, _, rfl, rfl⟩
  | some expected =>
      simp only [Option.any_some, Step.check, pure_bind]
      cases factory.fits expected with
      | true => rfl
      | false => exact ⟨_, _, rfl, rfl⟩

/-- A factory is named for a class that is known, and a reference to it is added if it can be
used. -/
theorem standing_substitute_known (scope : Scope) (around : Surroundings ω) (site : CallSite)
    {handle : ClassHandle} (known : work.owner = some handle) :
    ((scope.substitute around site).run work).2.standing =
      ⟨⟨some handle, (around.nameFactory ⟨handle, site⟩ work.numbering work.world).2.1,
          (around.nameFactory ⟨handle, site⟩ work.numbering work.world).2.2⟩,
        work.pool.after
          ⟨⟨handle, site⟩, (around.nameFactory ⟨handle, site⟩ work.numbering work.world).1⟩⟩ := by
  unfold substitute
  rw [run_bind, run_requestFactory_known scope around site known]
  rcases around.nameFactory ⟨handle, site⟩ work.numbering work.world with
    ⟨refusal | factory, numbering, world⟩
  · simp only [Except.mapError, Work.standing, known]
    rfl
  · have checked := run_checkFactory site factory
      { work with numbering := numbering, world := world }
    simp only [Except.mapError, Pool.after, Except.toOption, Option.elim_some, ← known]
    split at checked
    · rename_i fits
      rw [if_pos fits, run_bind, checked]
      exact (Step.standing_bind (fun _ _ => rfl) _).trans (Step.standing_edit _ _)
    · rename_i unfit
      obtain ⟨failure, work', ran, same⟩ := checked
      rw [if_neg unfit, run_bind, ran]
      exact same

/-- The first factory of a class is named after the class was found. -/
theorem run_substitute_found (scope : Scope) (around : Surroundings ω) (site : CallSite)
    {handle : ClassHandle} (unknown : work.owner = none)
    (found : (around.resolve scope.owner work.world).1 = .ok handle) :
    (scope.substitute around site).run work =
      (scope.substitute around site).run
        { work with
          world := (around.resolve scope.owner work.world).2.2
          notes := work.notes ++
            ((around.resolve scope.owner work.world).2.1.map Note.event).toArray
          owner := some handle } := by
  unfold substitute
  rw [run_bind, run_requestFactory_found scope around site unknown found, ← run_bind]

theorem run_substitute_missing (scope : Scope) (around : Surroundings ω) (site : CallSite)
    {e : ResolutionError} (unknown : work.owner = none)
    (missing : (around.resolve scope.owner work.world).1 = .error e) :
    (scope.substitute around site).run work =
      (.error (.unresolved e),
        { work with
          world := (around.resolve scope.owner work.world).2.2
          notes := work.notes ++
            ((around.resolve scope.owner work.world).2.1.map Note.event).toArray }) := by
  unfold substitute
  rw [run_bind, run_requestFactory_missing scope around site unknown missing]

end Scope

end Run

/-! ## Instructions -/

section Instructions

variable (scope : Scope) (around : Surroundings ω)

/-- An exchange on a lambda call site. -/
theorem Standing.Traced.exchange {owner : String} {table : List BootstrapMethod} {p : Placed}
    {x : Exchange} {t t' : Standing (ω × List Query)} {ok : Prop}
    (constructs : p.Constructs table t.pool x.request.site) (left : t'.pool = t.pool.after x)
    (exchanged : t.inquiry.Exchanged owner (p.Passes table t.pool)
      ((p.lambdaSite? table t.pool).isSome = true) ok [x] t'.inquiry) :
    t.Traced owner table (p.Passes table) (fun pool => (p.lambdaSite? table pool).isSome = true)
      (fun pool => [p].filter fun p => (p.lambdaSite? table pool).isSome) t' ok := by
  refine ⟨[p], [x], .cons ⟨constructs, left⟩ (.nil _), fun later grows => ?_, exchanged⟩
  rw [left] at grows
  have site := constructs.lambdaSite? ((t.pool.grown_after x).extends.trans grows)
  have listed : [p].filter (fun p => (p.lambdaSite? table later).isSome) = [p] := by simp [site]
  exact ⟨⟨[], listed.symm⟩, fun _ => listed.symm⟩

/-- The work on a lambda call site: the class is looked up if that has not happened, and a factory
is named for the site. -/
theorem traced_substitute {p : Placed} {site : CallSite} {work : Work (ω × List Query)}
    (constructs : p.Constructs scope.table work.pool site) {ok : Prop}
    (done : ok → ((scope.substitute around.recorded site).run work).1.isOk = true) :
    work.standing.Traced scope.owner scope.table (p.Passes scope.table)
      (fun pool => (p.lambdaSite? scope.table pool).isSome = true)
      (fun pool => [p].filter fun p => (p.lambdaSite? scope.table pool).isSome)
      ((scope.substitute around.recorded site).run work).2.standing ok := by
  have came : (p.lambdaSite? scope.table work.pool).isSome = true := by
    rw [constructs.lambdaSite? fun _ _ held => held]
    rfl
  cases known : work.owner with
  | some handle =>
      let x : Exchange :=
        ⟨⟨handle, site⟩, (around.nameFactory ⟨handle, site⟩ work.numbering work.world.1).1⟩
      have own (y : Exchange) (member : y ∈ [x]) : y.request.owner = handle := by
        rw [List.mem_singleton.mp member]
      rw [scope.standing_substitute_known around.recorded site known]
      exact .exchange (x := x) constructs rfl (.going known rfl rfl own)
  | none =>
      let looked := around.recorded.resolve scope.owner work.world
      have noted : looked.2.2.2 = work.world.2 ++ [.lookup scope.owner looked.1] := rfl
      cases answer : looked.1 with
      | ok handle =>
          let x : Exchange :=
            ⟨⟨handle, site⟩, (around.nameFactory ⟨handle, site⟩ work.numbering looked.2.2.1).1⟩
          have own (y : Exchange) (member : y ∈ [x]) :
              (Except.ok handle : Except ResolutionError _) = .ok y.request.owner := by
            rw [List.mem_singleton.mp member]
          rw [scope.run_substitute_found around.recorded site known answer,
            scope.standing_substitute_known around.recorded site rfl]
          rw [answer] at noted
          refine .exchange (x := x) constructs rfl (.begun known came rfl (fun _ => rfl) ?_ own)
          exact (congrArg (· ++ [Query.naming x]) noted).trans (List.append_assoc _ _ _)
      | error e =>
          rw [scope.run_substitute_missing around.recorded site known answer] at done ⊢
          have failed (finished : ok) : False := by cases done finished
          have missing : work.owner = (Except.error e : Except _ ClassHandle).toOption := known
          rw [answer] at noted
          exact ⟨[], [], .nil _,
            fun later grows => ⟨List.nil_prefix, fun finished => (failed finished).elim⟩,
            .begun known came missing (fun finished => (failed finished).elim) noted
              fun y member => absurd member List.not_mem_nil⟩

theorem run_replacement_of_passes {p : Placed} {work : Work ω}
    (passes : p.Passes scope.table work.pool) :
    ∃ call work', (scope.replacement around p).run work = (.ok call, work') ∧
      work'.standing = work.standing := by
  have rounds : Rounds (Scope.Replaces around scope.owner scope.table) work.standing [p]
      ([p].map fun _ => none) work.standing :=
    replaces_of_passes (List.forall_mem_singleton.mpr passes)
  cases rounds with
  | cons first rest =>
      cases rest
      obtain ⟨work', ran, same⟩ := (scope.does_replacement around p work _ _).mpr first
      exact ⟨_, work', ran, same⟩

theorem traces_replacement (p : Placed) :
    Traces scope.owner scope.table (p.Passes scope.table)
      (fun pool => (p.lambdaSite? scope.table pool).isSome = true)
      (fun pool => [p].filter fun p => (p.lambdaSite? scope.table pool).isSome)
      (scope.replacement around.recorded p) where
  traced work := by
    by_cases passes : p.Passes scope.table work.pool
    · obtain ⟨call, work', ran, same⟩ := run_replacement_of_passes scope around.recorded passes
      rw [ran]
      simp only [same]
      refine .idle _ ?_ (fun _ => passes) fun _ later grows => ?_
      · have passed := passes.lambdaSite? fun _ _ held => held
        show ¬ (p.lambdaSite? scope.table work.pool).isSome = true
        simp [passed]
      · simp [passes.lambdaSite? grows]
    · simp only [Placed.Passes, not_forall] at passes
      obtain ⟨index, dynamic, unpassed⟩ := passes
      obtain ⟨offset, instruction⟩ := p
      obtain rfl : instruction = .dynamicCall index := dynamic
      unfold Scope.replacement
      simp only
      cases judged : judge scope.table index work.pool with
      | error e =>
          rw [run_bind, Step.run_look_error judged]
          refine .idle _ (fun came => ?_) (fun failed => by cases failed)
            fun failed => by cases failed
          obtain ⟨site, found⟩ := Option.isSome_iff_exists.mp came
          obtain ⟨index', same, found⟩ := Placed.lambdaSite?_eq_some.mp found
          cases same
          cases judged.symm.trans found
      | ok verdict =>
          cases verdict with
          | foreign text handle => exact absurd ⟨text, handle, judged⟩ unpassed
          | lambda site =>
              rw [run_bind, Step.run_look_ok judged]
              simp only
              rw [Step.standing_bind fun _ _ => rfl]
              exact traced_substitute scope around
                (Placed.constructs_iff.mpr ⟨index, rfl, judged⟩) Step.isOk_of_bind
  through _ passes := run_replacement_of_passes scope around.recorded passes

end Instructions

/-! ## Methods -/

section Methods

variable (around : Surroundings ω) (owner : String) (table : List BootstrapMethod)

/-- The work on a body that can be read is that on its code: what is done after that leaves
everything as it stands. -/
theorem Member.standing_substituteInfo (scope : Scope) {info : Bytes} {body : Body}
    {code : List Placed} (parsed : Body.parse info = .ok body)
    (decoded : decode body.code = .ok code)
    (work : Work ω) :
    ((substituteInfo scope around info).run work).2.standing =
        ((code.mapM (scope.replacement around)).run work).2.standing ∧
      (((substituteInfo scope around info).run work).1.isOk = true →
        ((code.mapM (scope.replacement around)).run work).1.isOk = true) := by
  unfold substituteInfo
  rw [parsed]
  simp only [Step.check, pure_bind, decoded]
  refine ⟨Step.standing_bind (fun calls work => ?_) work, Step.isOk_of_bind⟩
  split
  · rfl
  · rw [run_bind, run_get]
    simp only
    cases body.rebuild code calls work.pool with
    | error failure => rfl
    | ok rebuilt => cases rebuilt with
      | error e => rfl
      | ok body' => rfl

/-- The work on a method that can be read is that on its code. -/
theorem Member.standing_substitute {m : Member} {text : String} {code : List Placed}
    {work : Work ω} (signed : m.signature work.pool = .ok text)
    (found : m.instructions work.pool = .ok code) :
    ((m.substitute owner table around).run work).2.standing =
        ((code.mapM (Scope.replacement ⟨owner, table, text⟩ around)).run work).2.standing ∧
      (((m.substitute owner table around).run work).1.isOk = true →
        ((code.mapM (Scope.replacement ⟨owner, table, text⟩ around)).run work).1.isOk = true) := by
  unfold Member.substitute
  rw [run_bind, Step.run_look_ok signed]
  simp only
  rw [run_bind]
  rcases Member.instructions_eq_ok.mp found with
    ⟨bodiless, rfl⟩ | ⟨info, body, read, parsed, decoded⟩
  · rw [Step.run_look_ok (bodyInfo_eq_none.mp bodiless)]
    exact ⟨rfl, fun _ => rfl⟩
  · obtain ⟨n, a, positioned, held, rfl⟩ := bodyInfo_eq_some.mp read
    rw [Step.run_look_ok positioned]
    simp only [held]
    obtain ⟨same, done⟩ := Member.standing_substituteInfo around ⟨owner, table, text⟩ parsed decoded
      work
    rw [Step.standing_bind fun _ _ => rfl]
    exact ⟨same, fun succeeded => done (Step.isOk_of_bind succeeded)⟩

/-- The work on a method that cannot be read fails, and leaves everything as it stands. -/
theorem Member.run_substitute_unread {m : Member} {work : Work ω}
    (unread : ∀ text code, m.signature work.pool = .ok text → m.instructions work.pool ≠ .ok code) :
    ∃ failure work', (m.substitute owner table around).run work = (.error failure, work') ∧
      work'.standing = work.standing := by
  unfold Member.substitute
  cases signed : m.signature work.pool with
  | error e =>
      rw [run_bind, Step.run_look_error signed]
      exact ⟨_, _, rfl, rfl⟩
  | ok text =>
      have unread (code : List Placed) := unread text code signed
      simp only [ne_eq, Member.instructions_eq_ok, not_or] at unread
      rw [run_bind, Step.run_look_ok signed]
      simp only
      rw [run_bind]
      cases positioned : m.bodyPosition work.pool with
      | error e =>
          rw [Step.run_look_error positioned]
          exact ⟨_, _, rfl, rfl⟩
      | ok place =>
          rw [Step.run_look_ok positioned]
          cases place with
          | none => exact absurd ⟨bodyInfo_eq_none.mpr positioned, rfl⟩ (unread []).1
          | some n =>
              obtain ⟨a, held, -⟩ := Attribute.getElem?_of_position positioned
              have read := bodyInfo_eq_some.mpr ⟨n, a, positioned, held, rfl⟩
              simp only [held]
              unfold substituteInfo
              cases parsed : Body.parse a.info with
              | error e => exact ⟨_, _, rfl, rfl⟩
              | ok body =>
                  cases decoded : decode body.code with
                  | error e =>
                      simp only [Step.check, pure_bind, decoded]
                      exact ⟨_, _, rfl, rfl⟩
                  | ok code => exact absurd ⟨a.info, body, read, parsed, decoded⟩ (unread code).2

theorem flatMap_filter_singleton {α : Type} (f : α → Bool) (as : List α) :
    (as.flatMap fun a => [a].filter f) = as.filter f := by
  induction as with
  | nil => rfl
  | cons a as ih =>
      rw [List.flatMap_cons, ih, ← List.filter_append]
      rfl

theorem traces_substitute (m : Member) :
    Traces owner table (m.Settled table) (m.ComesToLambda table) (m.lambdaCalls table)
      (m.substitute owner table around.recorded) where
  traced work := by
    by_cases read : ∃ text code,
        m.signature work.pool = .ok text ∧ m.instructions work.pool = .ok code
    · obtain ⟨text, code, signed, found⟩ := read
      obtain ⟨same, done⟩ := Member.standing_substitute around.recorded owner table signed found
      have traced := (Traces.mapM (traces_replacement ⟨owner, table, text⟩ around) code).traced work
      rw [← same] at traced
      obtain ⟨reached, asked, turns, listed, exchanged⟩ := traced.weaken done
      refine ⟨reached, asked, turns, fun later grows => ?_, exchanged.congr ?_ ?_⟩
      · have still : m.instructions later = .ok code :=
          ((grown_of_turns turns).extends.trans grows).retains.instructions found
        have listed := listed later grows
        simp only [flatMap_filter_singleton] at listed
        simp only [Member.lambdaCalls_of_instructions still]
        exact listed
      · constructor
        · exact fun passes => ⟨⟨text, signed⟩, code, found, passes⟩
        · rintro ⟨-, code', found', passes⟩
          cases found.symm.trans found'
          exact passes
      · constructor
        · exact fun came => ⟨⟨text, signed⟩, code, found, came⟩
        · rintro ⟨-, code', found', came⟩
          cases found.symm.trans found'
          exact came
    · have unread (text : String) (code : List Placed) (signed : m.signature work.pool = .ok text) :
          m.instructions work.pool ≠ .ok code := fun found => read ⟨text, code, signed, found⟩
      obtain ⟨failure, work', ran, same⟩ :=
        Member.run_substitute_unread around.recorded owner table unread
      rw [ran]
      simp only [same]
      refine .idle _ ?_ (fun failed => by cases failed) fun failed => by cases failed
      rintro ⟨⟨text, signed⟩, code, found, -⟩
      exact unread text code signed found
  through work settled := by
    have substitutes : Member.Substitutes around.recorded owner table work.standing m m
        work.standing :=
      Member.Settled.substitutes (t := work.standing) settled
    obtain ⟨work', ran, same⟩ := (Member.does_substitute around.recorded owner table m work m
      work.standing).mpr substitutes
    exact ⟨m, work', ran, same⟩

end Methods

end Downlevel
