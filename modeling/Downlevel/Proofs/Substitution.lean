/-
# Downlevel.Proofs.Substitution — what replacing call sites does

Each step of the work is described exactly, by a relation between the standing of the work
before it, its result, and the standing after it. The standing is all of the state but the
notes, so none of the notes has any influence on what is done.

* `Inquiry.Asks`: the owner is looked up once, and a factory is named for a call site.
* `Scope.Replaces`: an instruction that is no dynamic call is passed over, and so is a
  dynamic call of a foreign bootstrap method; a lambda call site gets the index of a
  reference to the factory that was named for it.
* `Member.SubstitutesInfo`, `Member.Substitutes`: the same for a body and for a method.
-/
import Downlevel.Proofs.ClassFile.Names
import Downlevel.Proofs.Code.Relocation
import Downlevel.Proofs.Descriptor
import Downlevel.Proofs.Pool.MethodRefs
import Downlevel.Substitution

namespace Downlevel

set_option autoImplicit false

open Sequencing

/-! ## The standing of the work -/

/-- What the surroundings have been asked so far, as far as it matters. -/
structure Inquiry (ω : Type) where
  /-- The class itself, once it was looked up. -/
  owner : Option ClassHandle
  numbering : Numbering
  world : ω

/-- All of the work but its notes. -/
structure Standing (ω : Type) where
  inquiry : Inquiry ω
  pool : Pool

def Work.standing {ω : Type} (work : Work ω) : Standing ω :=
  ⟨⟨work.owner, work.numbering, work.world⟩, work.pool⟩

variable {ω : Type}

/-! ## Steps -/

namespace Step

variable {α : Type}

theorem does_emit (level : Level) (message : String) (fields : List (String × String)) :
    Does Work.standing (Step.emit level message fields : Step ω Unit) fun t _ t' => t' = t := by
  intro work a t
  constructor
  · rintro ⟨work', ran, rfl⟩
    cases ran
    rfl
  · rintro rfl
    exact ⟨_, rfl, rfl⟩

theorem does_check (result : Except Malformed α) :
    Does Work.standing (Step.check result : Step ω α) fun t a t' => result = .ok a ∧ t' = t := by
  cases result with
  | ok found => exact (does_pure found).congr fun t a t' => by simp [eq_comm]
  | error e =>
      intro work a t
      constructor
      · rintro ⟨work', ran, -⟩
        cases ran
      · rintro ⟨impossible, -⟩
        cases impossible

theorem does_look (f : Pool → Except Malformed α) :
    Does Work.standing (Step.look f : Step ω α) fun t a t' => f t.pool = .ok a ∧ t' = t := by
  intro work a t
  exact does_check (f work.pool) work a t

theorem does_edit (e : Pool.Edit α) :
    Does Work.standing (Step.edit e : Step ω α) fun t a t' =>
      e.run t.pool = (.ok a, t'.pool) ∧ t'.inquiry = t.inquiry := by
  refine does_get fun work a t => ?_
  show _ ↔ e.run work.pool = (.ok a, t.pool) ∧ t.inquiry = work.standing.inquiry
  rcases e.run work.pool with ⟨(_ | length) | found, pool⟩
  · constructor
    · rintro ⟨work', ran, -⟩
      cases ran
    · rintro ⟨impossible, -⟩
      cases impossible
  · constructor
    · rintro ⟨work', ran, -⟩
      cases ran
    · rintro ⟨impossible, -⟩
      cases impossible
  · constructor
    · rintro ⟨work', ran, rfl⟩
      cases ran
      exact ⟨rfl, rfl⟩
    · rintro ⟨same, kept⟩
      obtain ⟨inquiry, pool'⟩ := t
      cases same
      cases kept
      exact ⟨_, rfl, rfl⟩

end Step

/-! ## Asking the surroundings -/

namespace Inquiry

/-- The handle of the class, and the world after it was looked up: now, or before. -/
def Knows (around : Surroundings ω) (owner : String) (q : Inquiry ω) (handle : ClassHandle)
    (world : ω) : Prop :=
  q.owner = some handle ∧ world = q.world ∨
    q.owner = none ∧ ∃ events, around.resolve owner q.world = (.ok handle, events, world)

/-- The surroundings name the factory for the call site. -/
def Asks (around : Surroundings ω) (owner : String) (q : Inquiry ω) (site : CallSite)
    (factory : Factory) (q' : Inquiry ω) : Prop :=
  ∃ handle world, q.Knows around owner handle world ∧ q'.owner = some handle ∧
    around.nameFactory ⟨handle, site⟩ q.numbering world = (.ok factory, q'.numbering, q'.world)

end Inquiry

/-- A call of the factory can stand for the call site. -/
def Factory.StandsFor (factory : Factory) (site : CallSite) : Prop :=
  ∃ expected, MethodDescriptor.parse? site.descriptor = some expected ∧
    factory.fits expected = true

namespace Scope

theorem does_ownerHandle (scope : Scope) (around : Surroundings ω) :
    Does Work.standing (scope.ownerHandle around) fun t handle t' =>
      t.inquiry.Knows around scope.owner handle t'.inquiry.world ∧
        t'.inquiry.owner = some handle ∧ t'.inquiry.numbering = t.inquiry.numbering ∧
        t'.pool = t.pool := by
  refine does_get fun work handle t => ?_
  obtain ⟨⟨owner, numbering, world⟩, pool⟩ := t
  show _ ↔ (work.owner = some handle ∧ world = work.world ∨ work.owner = none ∧ ∃ events,
    around.resolve scope.owner work.world = (.ok handle, events, world)) ∧
      owner = some handle ∧ numbering = work.numbering ∧ pool = work.pool
  cases known : work.owner with
  | some found =>
      constructor
      · rintro ⟨work', ran, same⟩
        cases ran
        cases same
        exact ⟨.inl ⟨rfl, rfl⟩, known, rfl, rfl⟩
      · rintro ⟨⟨same, rfl⟩ | ⟨impossible, -⟩, rfl, rfl, rfl⟩
        · cases same
          exact ⟨work, rfl, by rw [Work.standing, known]⟩
        · cases impossible
  | none =>
      rcases around.resolve scope.owner work.world with ⟨e | found, events, world'⟩
      · constructor
        · rintro ⟨work', ran, -⟩
          cases ran
        · rintro ⟨⟨impossible, -⟩ | ⟨-, events', impossible⟩, -⟩
          · cases impossible
          · cases impossible
      · constructor
        · rintro ⟨work', ran, same⟩
          cases ran
          cases same
          exact ⟨.inr ⟨rfl, events, rfl⟩, rfl, rfl, rfl⟩
        · rintro ⟨⟨impossible, -⟩ | ⟨-, events', same⟩, rfl, rfl, rfl⟩
          · cases impossible
          · cases same
            exact ⟨_, rfl, rfl⟩

theorem does_requestFactory (scope : Scope) (around : Surroundings ω) (site : CallSite) :
    Does Work.standing (scope.requestFactory around site) fun t factory t' =>
      t.inquiry.Asks around scope.owner site factory t'.inquiry ∧ t'.pool = t.pool := by
  refine ((does_ownerHandle scope around).bind (Q := fun handle t factory t' =>
    around.nameFactory ⟨handle, site⟩ t.inquiry.numbering t.inquiry.world =
      (.ok factory, t'.inquiry.numbering, t'.inquiry.world) ∧
        t'.inquiry.owner = t.inquiry.owner ∧ t'.pool = t.pool) fun handle => ?_).congr
    fun t factory t' => ?_
  · refine does_get fun work factory t => ?_
    obtain ⟨⟨owner, numbering, world⟩, pool⟩ := t
    show _ ↔ around.nameFactory ⟨handle, site⟩ work.numbering work.world =
      (.ok factory, numbering, world) ∧ owner = work.owner ∧ pool = work.pool
    rcases around.nameFactory ⟨handle, site⟩ work.numbering work.world with
      ⟨refusal | found, numbering', world'⟩
    · constructor
      · rintro ⟨work', ran, -⟩
        cases ran
      · rintro ⟨impossible, -⟩
        cases impossible
    · constructor
      · rintro ⟨work', ran, same⟩
        cases ran
        cases same
        exact ⟨rfl, rfl, rfl⟩
      · rintro ⟨same, rfl, rfl⟩
        cases same
        exact ⟨_, rfl, rfl⟩
  · constructor
    · rintro ⟨handle, middle, ⟨knows, known, numbered, pooled⟩, answered, kept, pooled'⟩
      rw [numbered] at answered
      exact ⟨⟨handle, _, knows, kept.trans known, answered⟩, pooled'.trans pooled⟩
    · rintro ⟨⟨handle, world, knows, known, answered⟩, pooled⟩
      exact ⟨handle, ⟨⟨some handle, t.inquiry.numbering, world⟩, t.pool⟩,
        ⟨knows, rfl, rfl, rfl⟩, answered, known, pooled⟩

theorem does_checkFactory (site : CallSite) (factory : Factory) :
    Does Work.standing (checkFactory site factory : Step ω Unit) fun t _ t' =>
      factory.StandsFor site ∧ t' = t := by
  refine ((Step.does_check _).bind fun expected =>
    (does_pure ()).ite (does_throw _)).congr fun t a t' => ?_
  simp only [Factory.StandsFor, ← MethodDescriptor.parse_eq_ok]
  constructor
  · intro ⟨expected, middle, ⟨parsed, same⟩, done⟩
    subst same
    rcases done with ⟨fits, -, same⟩ | ⟨-, impossible⟩
    · exact ⟨⟨expected, parsed, fits⟩, same⟩
    · exact impossible.elim
  · intro ⟨⟨expected, parsed, fits⟩, same⟩
    exact ⟨expected, t, ⟨parsed, rfl⟩, .inl ⟨fits, trivial, same⟩⟩

theorem does_substitute (scope : Scope) (around : Surroundings ω) (site : CallSite) :
    Does Work.standing (scope.substitute around site) fun t reference t' =>
      ∃ factory, t.inquiry.Asks around scope.owner site factory t'.inquiry ∧
        factory.StandsFor site ∧
        (Pool.internMethodRef factory.owner factory.name factory.descriptor false).run t.pool =
          (.ok reference, t'.pool) := by
  refine ((does_requestFactory scope around site).bind fun factory =>
    (does_checkFactory site factory).bind fun _ => (Step.does_edit _).bind fun index =>
      (Step.does_emit _ _ _).bind fun _ => does_pure index).congr fun t reference t' => ?_
  constructor
  · rintro ⟨factory, middle, ⟨asks, pooled⟩, ⟨⟩, _, ⟨stands, rfl⟩, index, _, ⟨interned, kept⟩,
      ⟨⟩, _, rfl, rfl, rfl⟩
    rw [pooled] at interned
    rw [← kept] at asks
    exact ⟨factory, asks, stands, interned⟩
  · rintro ⟨factory, asks, stands, interned⟩
    exact ⟨factory, ⟨t'.inquiry, t.pool⟩, ⟨asks, rfl⟩, (), _, ⟨stands, rfl⟩, reference, t',
      ⟨interned, rfl⟩, (), t', rfl, rfl, rfl⟩

/-- What becomes of an instruction: the index of the method to call in its place, if any. -/
inductive Replaces (around : Surroundings ω) (owner : String) (table : List BootstrapMethod) :
    Standing ω → Placed → Option UInt16 → Standing ω → Prop where
  | other {t : Standing ω} {p : Placed} (plain : p.isDynamicCall = false) :
      Replaces around owner table t p none t
  | foreign {t : Standing ω} {p : Placed} {index : UInt16} {text : String} {handle : MethodHandle}
      (dynamic : p.instruction = .dynamicCall index)
      (judged : judge table index t.pool = .ok (.foreign text handle)) :
      Replaces around owner table t p none t
  | lambda {t t' : Standing ω} {p : Placed} {index : UInt16} {site : CallSite}
      {factory : Factory} {reference : UInt16} (dynamic : p.instruction = .dynamicCall index)
      (judged : judge table index t.pool = .ok (.lambda site))
      (asks : t.inquiry.Asks around owner site factory t'.inquiry)
      (stands : factory.StandsFor site)
      (interned : (Pool.internMethodRef factory.owner factory.name factory.descriptor false).run
        t.pool = (.ok reference, t'.pool)) :
      Replaces around owner table t p (some reference) t'

theorem does_replacement (scope : Scope) (around : Surroundings ω) (p : Placed) :
    Does Work.standing (scope.replacement around p) fun t call t' =>
      Replaces around scope.owner scope.table t p call t' := by
  obtain ⟨offset, instruction⟩ := p
  cases instruction with
  | dynamicCall index =>
      refine ((Step.does_look (judge scope.table index)).bind (Q := fun judged t call t' =>
        (∃ site reference, judged = .lambda site ∧ call = some reference ∧ ∃ factory,
            t.inquiry.Asks around scope.owner site factory t'.inquiry ∧ factory.StandsFor site ∧
            (Pool.internMethodRef factory.owner factory.name factory.descriptor false).run t.pool =
              (.ok reference, t'.pool)) ∨
          ∃ text handle, judged = .foreign text handle ∧ call = none ∧ t' = t)
        fun judged => ?_).congr fun t call t' => ?_
      · cases judged with
        | lambda site =>
            refine ((does_substitute scope around site).bind fun reference =>
              does_pure (some reference)).congr fun t call t' => ?_
            constructor
            · rintro ⟨reference, _, did, rfl, rfl⟩
              exact .inl ⟨site, reference, rfl, rfl, did⟩
            · rintro (⟨_, reference, ⟨⟩, rfl, did⟩ | ⟨_, _, impossible, -⟩)
              · exact ⟨reference, t', did, rfl, rfl⟩
              · cases impossible
        | foreign text handle =>
            refine ((Step.does_emit _ _ _).bind fun _ => does_pure none).congr fun t call t' => ?_
            constructor
            · rintro ⟨⟨⟩, _, rfl, rfl, rfl⟩
              exact .inr ⟨text, handle, rfl, rfl, rfl⟩
            · rintro (⟨_, _, impossible, -⟩ | ⟨_, _, -, rfl, rfl⟩)
              · cases impossible
              · exact ⟨(), _, rfl, rfl, rfl⟩
      · constructor
        · rintro ⟨judged, _, ⟨found, rfl⟩, did⟩
          rcases did with ⟨site, reference, rfl, rfl, factory, asks, stands, interned⟩ |
            ⟨text, handle, rfl, rfl, rfl⟩
          · exact .lambda rfl found asks stands interned
          · exact .foreign rfl found
        · intro replaces
          cases replaces with
          | other plain => cases plain
          | foreign dynamic judged =>
              cases dynamic
              exact ⟨_, _, ⟨judged, rfl⟩, .inr ⟨_, _, rfl, rfl, rfl⟩⟩
          | lambda dynamic judged asks stands interned =>
              cases dynamic
              exact ⟨_, _, ⟨judged, rfl⟩, .inl ⟨_, _, rfl, rfl, _, asks, stands, interned⟩⟩
  | _ =>
      refine (does_pure none).congr fun t call t' => ?_
      constructor
      · rintro ⟨rfl, rfl⟩
        exact .other rfl
      · intro replaces
        cases replaces with
        | other plain => exact ⟨rfl, rfl⟩
        | foreign dynamic _ => cases dynamic
        | lambda dynamic _ _ _ _ => cases dynamic

end Scope

/-! ## Bodies and methods -/

theorem Body.rebuild_eq_ok {body rebuilt : Body} {code : List Placed}
    {calls : List (Option UInt16)} {pool : Pool} :
    body.rebuild code calls pool = .ok (.ok rebuilt) ↔
      ∃ bytes map, assemble (replaceCalls code calls) body.code.length = .ok (bytes, map) ∧
        body.relocate pool map bytes = .ok rebuilt := by
  unfold Body.rebuild
  cases assembled : assemble (replaceCalls code calls) body.code.length with
  | ok result =>
      obtain ⟨bytes, map⟩ := result
      simp
  | error e => cases e <;> simp

namespace Member

variable (around : Surroundings ω) (owner : String) (table : List BootstrapMethod)

/-- What becomes of the contents of a body's attribute. -/
inductive SubstitutesInfo : Standing ω → Bytes → Bytes → Standing ω → Prop where
  /-- Nothing is replaced, and the bytes stay. -/
  | untouched {t t' : Standing ω} {info : Bytes} {body : Body} {code : List Placed}
      {calls : List (Option UInt16)} (parsed : Body.parse info = .ok body)
      (decoded : decode body.code = .ok code)
      (rounds : Rounds (Scope.Replaces around owner table) t code calls t')
      (unchanged : calls.all Option.isNone = true) : SubstitutesInfo t info info t'
  /-- The code is assembled anew and the tables move along. -/
  | rebuilt {t t' : Standing ω} {info bytes : Bytes} {body rebuilt : Body} {code : List Placed}
      {calls : List (Option UInt16)} {map : OffsetMap} (parsed : Body.parse info = .ok body)
      (decoded : decode body.code = .ok code)
      (rounds : Rounds (Scope.Replaces around owner table) t code calls t')
      (changed : calls.all Option.isNone = false)
      (assembled : assemble (replaceCalls code calls) body.code.length = .ok (bytes, map))
      (relocated : body.relocate t'.pool map bytes = .ok rebuilt) :
      SubstitutesInfo t info rebuilt.write t'

/-- What becomes of a method. -/
inductive Substitutes : Standing ω → Member → Member → Standing ω → Prop where
  | bare {t : Standing ω} {m : Member} {text : String} (signed : m.signature t.pool = .ok text)
      (bodiless : m.bodyPosition t.pool = .ok none) : Substitutes t m m t
  | body {t t' : Standing ω} {m : Member} {text : String} {n : Nat} {a : Attribute} {info : Bytes}
      (signed : m.signature t.pool = .ok text)
      (positioned : m.bodyPosition t.pool = .ok (some n)) (held : m.attributes[n]? = some a)
      (changes : SubstitutesInfo around owner table t a.info info t') :
      Substitutes t m { m with attributes := m.attributes.set n { a with info := info } } t'

theorem does_substituteInfo (scope : Scope) (info : Bytes) :
    Does Work.standing (substituteInfo scope around info) fun t info' t' =>
      SubstitutesInfo around scope.owner scope.table t info info' t' := by
  refine ((Step.does_check (Body.parse info)).bind fun body =>
    (Step.does_check (decode body.code)).bind fun code =>
      (Does.mapM (scope.does_replacement around) code).bind (Q := fun calls t info' t' => t' = t ∧
        (calls.all Option.isNone = true ∧ info' = info ∨ calls.all Option.isNone = false ∧
          ∃ rebuilt, body.rebuild code calls t.pool = .ok (.ok rebuilt) ∧ info' = rebuilt.write))
        fun calls => ?_).congr fun t info' t' => ?_
  · refine ((does_pure info).ite (Q := fun t info' t' => t' = t ∧
      ∃ rebuilt, body.rebuild code calls t.pool = .ok (.ok rebuilt) ∧ info' = rebuilt.write)
      ?_).congr fun t info' t' => ?_
    · refine does_get fun work info' t => ?_
      show _ ↔ t = work.standing ∧
        ∃ rebuilt, body.rebuild code calls work.pool = .ok (.ok rebuilt) ∧ info' = rebuilt.write
      cases body.rebuild code calls work.pool with
      | error failure => exact (does_throw failure work info' t).trans (by simp)
      | ok rebuilt =>
          refine (((Step.does_check rebuilt).bind fun rebuilt' => does_pure rebuilt'.write)
            work info' t).trans ?_
          constructor
          · rintro ⟨rebuilt', _, ⟨rfl, rfl⟩, rfl, rfl⟩
            exact ⟨rfl, rebuilt', rfl, rfl⟩
          · rintro ⟨rfl, rebuilt', same, rfl⟩
            exact ⟨rebuilt', _, ⟨Except.ok.inj same, rfl⟩, rfl, rfl⟩
    · cases calls.all Option.isNone <;> simp [and_comm]
  constructor
  · rintro ⟨body, _, ⟨parsed, rfl⟩, code, _, ⟨decoded, rfl⟩, calls, _, rounds, rfl,
      ⟨unchanged, rfl⟩ | ⟨changed, rebuilt, built, rfl⟩⟩
    · exact .untouched parsed decoded rounds unchanged
    · obtain ⟨bytes, map, assembled, relocated⟩ := Body.rebuild_eq_ok.mp built
      exact .rebuilt parsed decoded rounds changed assembled relocated
  · intro changes
    cases changes with
    | untouched parsed decoded rounds unchanged =>
        exact ⟨_, _, ⟨parsed, rfl⟩, _, _, ⟨decoded, rfl⟩, _, _, rounds, rfl, .inl ⟨unchanged, rfl⟩⟩
    | rebuilt parsed decoded rounds changed assembled relocated =>
        exact ⟨_, _, ⟨parsed, rfl⟩, _, _, ⟨decoded, rfl⟩, _, _, rounds, rfl, .inr ⟨changed, _,
          Body.rebuild_eq_ok.mpr ⟨_, _, assembled, relocated⟩, rfl⟩⟩

theorem does_substitute (m : Member) :
    Does Work.standing (m.substitute owner table around) fun t m' t' =>
      Substitutes around owner table t m m' t' := by
  refine ((Step.does_look m.signature).bind fun text =>
    (Step.does_look m.bodyPosition).bind (Q := fun place t m' t' =>
      (place.bind (m.attributes[·]?) = none ∧ m' = m ∧ t' = t) ∨
        ∃ n a info, place = some n ∧ m.attributes[n]? = some a ∧
          SubstitutesInfo around owner table t a.info info t' ∧
          m' = { m with attributes := m.attributes.set n { a with info := info } })
      fun place => ?_).congr fun t m' t' => ?_
  · cases place with
    | none => exact (does_pure m).congr fun t m' t' => by simp
    | some n =>
        cases held : m.attributes[n]? with
        | none =>
            simp only [held]
            exact (does_pure m).congr fun t m' t' => by simp [held]
        | some a =>
            simp only [held]
            refine ((does_substituteInfo around ⟨owner, table, text⟩ a.info).bind fun info =>
              does_pure _).congr fun t m' t' => ?_
            constructor
            · rintro ⟨info, _, changes, rfl, rfl⟩
              exact .inr ⟨n, a, info, rfl, held, changes, rfl⟩
            · rintro (⟨impossible, -⟩ | ⟨_, _, info, ⟨⟩, same, changes, rfl⟩)
              · exact absurd (held.symm.trans impossible) (by simp)
              · obtain rfl := Option.some.inj (held.symm.trans same)
                exact ⟨info, t', changes, rfl, rfl⟩
  constructor
  · rintro ⟨text, _, ⟨signed, rfl⟩, place, _, ⟨positioned, rfl⟩, did⟩
    rcases did with ⟨missing, rfl, rfl⟩ | ⟨n, a, info, rfl, held, changes, rfl⟩
    · cases place with
      | none => exact .bare signed positioned
      | some n =>
          obtain ⟨a, held, -⟩ := Attribute.getElem?_of_position positioned
          exact absurd (held.symm.trans missing) (by simp)
    · exact .body signed positioned held changes
  · intro substitutes
    cases substitutes with
    | bare signed bodiless =>
        exact ⟨_, _, ⟨signed, rfl⟩, none, _, ⟨bodiless, rfl⟩, .inl ⟨rfl, rfl, rfl⟩⟩
    | body signed positioned held changes =>
        exact ⟨_, _, ⟨signed, rfl⟩, _, _, ⟨positioned, rfl⟩,
          .inr ⟨_, _, _, rfl, held, changes, rfl⟩⟩

end Member

end Downlevel
