/-
# Downlevel.Proofs.Requests — the requests follow the code

A request for a factory is made where the work comes to a lambda call site, and nowhere else. So
the record of a class can be told from its code: the requests are those for the first of the lambda
call sites, in the order of the methods and of their code, and for all of them if the class is
lowered. Before the first one the class itself is looked up (`requests_follow_code`).

A class without lambda call sites asks nobody, and nobody can have any influence on it.
-/
import Downlevel.Proofs.Tracing
import Downlevel.Session

namespace Downlevel

set_option autoImplicit false

open Sequencing

variable {ω : Type}

/-! ## The record of a class -/

/-- The lambda call sites of a class, in the order of its methods and of their code. -/
def Prepared.lambdaCalls (p : Prepared) (pool : Pool) : List Placed :=
  p.classFile.methods.flatMap (Member.lambdaCalls p.table pool)

/-- The work on a class comes to a lambda call site: all in front of it can be read, and is
passed over. -/
def Prepared.ComesToLambda (p : Prepared) : Prop :=
  Reaches (Member.Settled p.table p.classFile.pool) (Member.ComesToLambda p.table p.classFile.pool)
    p.classFile.methods

/-- The record of a class follows its code. The call sites that were reached each had their turn,
and they are the first of the lambda call sites, or all of them. If there were any to come to, then
the class was looked up first, and they all were handed what was found. -/
def Prepared.AskedInOrder (p : Prepared) (queries : List Query) (ok : Prop) : Prop :=
  ∃ reached asked grown, Rounds (Placed.Turn p.table) p.classFile.pool reached asked grown ∧
    reached <+: p.lambdaCalls grown ∧ (ok → reached = p.lambdaCalls grown) ∧
    (p.ComesToLambda ∧ (∃ answer, queries = .lookup p.owner answer :: asked.map .naming ∧
        ∀ x ∈ asked, answer = .ok x.request.owner) ∨
      ¬ p.ComesToLambda ∧ queries = [] ∧ asked = [])

/-- Nobody is asked anything while these bytes are lowered: in any surroundings the result is the
same, the world is left as it was, and no number is drawn. -/
def AsksNobody (target : Version) (bytes : Bytes) : Prop :=
  ∀ (ω ω' : Type) (around : Surroundings ω) (around' : Surroundings ω') (session session' : Session)
    (world : ω) (world' : ω'),
    (session.lower around target bytes world).1.result =
        (session'.lower around' target bytes world').1.result ∧
      (session.lower around target bytes world).1.world = world ∧
      (session.lower around target bytes world).2.numbering = session.begin.numbering

section Classes

variable (around : Surroundings ω) (numbering : Numbering) (world : ω) {target : Version}
  {bytes : Bytes} {p : Prepared} {notes : Array Note}

/-- What the work on the methods leaves the surroundings with stays. -/
theorem lower_of_substitute (prepared : (prepare target bytes).run #[] = (.ok p, notes)) :
    let ran := (p.classFile.methods.mapM (Member.substitute p.owner p.table around)).run
      ⟨world, numbering, notes, none, p.classFile.pool⟩
    (lower around target bytes numbering world).world = ran.2.world ∧
      ((lower around target bytes numbering world).result.isOk = true → ran.1.isOk = true) := by
  unfold lower
  simp only [prepared]
  rcases (p.classFile.methods.mapM (Member.substitute p.owner p.table around)).run
    ⟨world, numbering, notes, none, p.classFile.pool⟩ with ⟨failure | methods, work⟩
  · exact ⟨rfl, fun failed => by cases failed⟩
  · refine ⟨?_, fun _ => rfl⟩
    simp only
    split
    · rfl
    · rfl

/-- What is added to a record follows the code of the class. -/
theorem askedInOrder_of_prepared (queries : List Query)
    (prepared : (prepare target bytes).run #[] = (.ok p, notes)) :
    ∃ more, (lower around.recorded target bytes numbering (world, queries)).world.2 =
        queries ++ more ∧
      p.AskedInOrder more
        ((lower around.recorded target bytes numbering (world, queries)).result.isOk = true) := by
  obtain ⟨left, done⟩ := lower_of_substitute around.recorded numbering (world, queries) prepared
  obtain ⟨reached, asked, turns, listed, exchanged⟩ :=
    ((Traces.mapM (traces_substitute around p.owner p.table) p.classFile.methods).traced
      ⟨(world, queries), numbering, notes, none, p.classFile.pool⟩).weaken done
  obtain ⟨first, all⟩ := listed _ fun _ _ held => held
  obtain ⟨more, record, asks⟩ := exchanged.recorded rfl
  refine ⟨more, ?_, reached, asked, _, turns, first, all, asks⟩
  rw [left]
  exact record

theorem asksNobody_of_failed {e : Malformed}
    (failed : (prepare target bytes).run #[] = (.error e, notes)) : AsksNobody target bytes := by
  intro ω ω' around around' session session' world world'
  simp [Session.lower, lower, failed]

/-- An instruction that is no lambda call site, whoever is there to be asked. -/
theorem alike_replacement_of_none {ω' : Type} {around' : Surroundings ω'}
    {T : Standing ω → Standing ω' → Prop} {scope : Scope} {p : Placed}
    (none : ∀ t t', T t t' → t.pool = t'.pool ∧ p.lambdaSite? scope.table t.pool = none) :
    Alike (Work.Both T) (scope.replacement around p) (scope.replacement around' p) := by
  obtain ⟨offset, instruction⟩ := p
  cases instruction with
  | dynamicCall index =>
      refine (Step.alike_look fun t t' related => by rw [(none t t' related).1]).bind_of
        fun judged ⟨work, work', _, related, ran⟩ => ?_
      cases judged with
      | foreign text handle => exact (Step.alike_emit _ _ _).bind fun _ => alike_pure Option.none
      | lambda site =>
          obtain ⟨judged, -⟩ := (Step.does_look (judge scope.table index)).of_run ran
          cases (none _ _ related).2.symm.trans
            (Placed.lambdaSite?_eq_some.mpr ⟨index, rfl, judged⟩)
  | _ => exact alike_pure Option.none

theorem asksNobody_of_none (prepared : (prepare target bytes).run #[] = (.ok p, notes))
    (none : p.lambdaCalls p.classFile.pool = []) : AsksNobody target bytes := by
  intro ω ω' around around' session session' world world'
  have each (m : Member) (member : m ∈ p.classFile.methods) (code : List Placed)
      (found : m.instructions p.classFile.pool = .ok code) (q : Placed) (held : q ∈ code) :
      q.lambdaSite? p.table p.classFile.pool = Option.none := by
    have empty := List.flatMap_eq_nil_iff.mp none m member
    rw [Member.lambdaCalls_of_instructions found, List.filter_eq_nil_iff] at empty
    exact Option.not_isSome_iff_eq_none.mp (empty q held)
  -- Both runs stand where they began, all along.
  let begun {ω : Type} (session : Session) (world : ω) : Standing ω :=
    ⟨⟨Option.none, session.begin.numbering, world⟩, p.classFile.pool⟩
  have alike : (lower around target bytes session.begin.numbering world).result =
        (lower around' target bytes session'.begin.numbering world').result ∧
      (lower around target bytes session.begin.numbering world).numbering =
        session.begin.numbering ∧
      (lower around target bytes session.begin.numbering world).world = world := by
    refine lower_alike (T := fun _ t t' => t = begun session world ∧ t' = begun session' world')
      (Q := fun numbering left _ _ => numbering = session.begin.numbering ∧ left = world)
      ?_ ⟨rfl, rfl⟩ ?_ fun p' _ ran => ?_
    · rintro _ t t' ⟨rfl, rfl⟩
      rfl
    · rintro _ t t' ⟨rfl, rfl⟩
      exact ⟨rfl, rfl⟩
    · cases prepared.symm.trans ran
      refine ⟨⟨rfl, rfl⟩, fun m member => Member.alike_substitute ?_ ?_⟩
      · rintro t t' ⟨rfl, rfl⟩
        rfl
      · rintro _ _ ⟨rfl, rfl⟩ method code found q held
        refine alike_replacement_of_none around ?_
        rintro t t' ⟨rfl, rfl⟩
        exact ⟨rfl, each m member code found q held⟩
  exact ⟨alike.1, alike.2.2, alike.2.1⟩

end Classes

/-- Requests follow the code. A class that cannot be prepared asks nobody. For one that can, the
record of all queries follows its code; and if it has no lambda call site, it asks nobody. Keeping
the record has no influence on anything else. -/
theorem requests_follow_code (around : Surroundings ω) (target : Version) (bytes : Bytes)
    (numbering : Numbering) (world : ω) :
    let plain := lower around target bytes numbering world
    let outcome := lower around.recorded target bytes numbering (world, [])
    (plain.result = outcome.result ∧ plain.numbering = outcome.numbering ∧
        plain.world = outcome.world.1) ∧
      (∀ e notes, (prepare target bytes).run #[] = (.error e, notes) →
        outcome.world.2 = [] ∧ AsksNobody target bytes) ∧
      ∀ p notes, (prepare target bytes).run #[] = (.ok p, notes) →
        p.AskedInOrder outcome.world.2 (plain.result.isOk = true) ∧
          (p.lambdaCalls p.classFile.pool = [] →
            outcome.world.2 = [] ∧ AsksNobody target bytes) := by
  have plain := lower_recorded around target bytes numbering world []
  -- Whoever asks nobody has nothing to record.
  have unrecorded (nobody : AsksNobody target bytes) :
      (lower around.recorded target bytes numbering (world, [])).world.2 = [] := by
    have kept := (nobody _ _ around.recorded around.recorded ⟨target, numbering, true⟩
      ⟨target, numbering, true⟩ (world, []) (world, [])).2.1
    exact congrArg Prod.snd kept
  refine ⟨plain, fun e notes failed => ?_, fun p notes prepared => ⟨?_, fun none => ?_⟩⟩
  · exact ⟨unrecorded (asksNobody_of_failed failed), asksNobody_of_failed failed⟩
  · obtain ⟨queries, record, asked⟩ := askedInOrder_of_prepared around numbering world [] prepared
    rw [plain.1, record]
    exact asked
  · exact ⟨unrecorded (asksNobody_of_none prepared none), asksNobody_of_none prepared none⟩

namespace Looping

/-- The class with a call site, ready for the work on it. -/
def prepared (target : Version) : Prepared :=
  ⟨stages.owner, stages.table,
    { stages.input.atVersion (stages.input.version.earlier target) with methods := stages.methods }⟩

theorem prepare_eq_ok (target : Version) :
    ∃ notes, (prepare target input.write).run #[] = (.ok (prepared target), notes) :=
  (gives_prepare target input.write).run ⟨stages.input, stages.owner, stages.methods, stages.table,
    reached.parsed, reached.named, reached.retained, reached.bootstrap, rfl⟩ #[]

def method : Member :=
  ⟨8, 3, 4, [⟨5, Body.write ⟨1, 0, [0xBA, 0, 15, 0, 0, 0x57, 0xA7, 0xFF, 0xFA], [], []⟩⟩]⟩

theorem instructions_method : method.instructions input.pool = .ok code := by decide +kernel

theorem comesToLambda (target : Version) : (prepared target).ComesToLambda := by
  have signed : method.signature input.pool = .ok "run()V" := by decide +kernel
  have site : Reaches (Placed.Passes [⟨12, []⟩] input.pool)
      (fun p => (p.lambdaSite? [⟨12, []⟩] input.pool).isSome = true) code :=
    reaches_cons.mpr (.inl (by decide +kernel))
  exact reaches_cons.mpr (.inl ⟨⟨"run()V", signed⟩, code, instructions_method, site⟩)

end Looping

/-- The class with a call site has been looked up when its factory is named. -/
theorem requests_follow_code_looping :
    ∃ p notes, (prepare ⟨50, 0⟩ Looping.input.write).run #[] = (.ok p, notes) ∧ p.ComesToLambda ∧
      p.AskedInOrder
        (lower Looping.surroundings.recorded ⟨50, 0⟩ Looping.input.write .fresh ((), [])).world.2
        ((lower Looping.surroundings ⟨50, 0⟩ Looping.input.write .fresh ()).result.isOk =
          true) := by
  obtain ⟨notes, prepared⟩ := Looping.prepare_eq_ok ⟨50, 0⟩
  refine ⟨_, notes, prepared, Looping.comesToLambda ⟨50, 0⟩, ?_⟩
  have followed :=
    requests_follow_code Looping.surroundings ⟨50, 0⟩ Looping.input.write .fresh ()
  exact (followed.2.2 _ notes prepared).1

end Downlevel
