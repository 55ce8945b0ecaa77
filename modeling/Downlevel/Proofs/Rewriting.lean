/-
# Downlevel.Proofs.Rewriting — bodies before and after

The steps of `Proofs.Substitution` depend on the pool as it is when they are taken. Since
the pool only grows, everything they found can be found in any pool that comes later. So
the whole work can be described against one pool, the one reached in the end: `Chooses`
for instructions and `Member.Changes` for the attributes of a method.

`Placed.Rewritten` compares the code of a body before and after, instruction by
instruction. A lambda call site has become a static call of the factory that was named for
it; any other instruction is the same, and a target names the instruction at the same
place of the list (`SameStop`).
-/
import Downlevel.Proofs.Substitution

namespace Downlevel

set_option autoImplicit false

open Sequencing

variable {ω : Type}

/-! ## Judging in a larger pool -/

theorem judge_of_extends {before after : Pool} (grows : Pool.Extends before after)
    {table : List BootstrapMethod} {index : UInt16} {judged : Judged}
    (found : judge table index before = .ok judged) : judge table index after = .ok judged := by
  unfold judge at found ⊢
  obtain ⟨⟨position, name, descriptor⟩, site, next⟩ := bind_eq_ok.mp found
  refine bind_eq_ok.mpr ⟨_, grows.invokeDynamic site, ?_⟩
  simp only at next ⊢
  cases entry : table[position.toNat]? with
  | none =>
      rw [entry] at next
      cases next
  | some method =>
      rw [entry] at next
      obtain ⟨bootstrap, followed, next⟩ := bind_eq_ok.mp next
      refine bind_eq_ok.mpr ⟨bootstrap, grows.methodHandle followed, ?_⟩
      split at next
      · rename_i owned
        rw [if_pos owned]
        obtain ⟨arguments, looked, same⟩ := bind_eq_ok.mp next
        refine bind_eq_ok.mpr ⟨arguments, mapM_eq_ok.mpr ?_, same⟩
        exact (mapM_eq_ok.mp looked).imp fun _ _ => grows.loadable
      · rename_i owned
        rw [if_neg owned]
        exact next

/-- The instruction is no lambda call site: no dynamic call, or one of a foreign bootstrap
method. -/
def Placed.Passes (table : List BootstrapMethod) (pool : Pool) (p : Placed) : Prop :=
  ∀ index, p.instruction = .dynamicCall index →
    ∃ text handle, judge table index pool = .ok (.foreign text handle)

/-- A reference to the factory's method. -/
def Factory.reference (factory : Factory) : MemberRef :=
  ⟨factory.owner, factory.name, factory.descriptor, false⟩

/-- What becomes of an instruction, against a pool that holds all that is needed. -/
inductive Scope.Chooses (around : Surroundings ω) (owner : String)
    (table : List BootstrapMethod) (pool : Pool) :
    Inquiry ω → Placed → Option UInt16 → Inquiry ω → Prop where
  | passed {q : Inquiry ω} {p : Placed} (passes : p.Passes table pool) :
      Chooses around owner table pool q p none q
  | lambda {q q' : Inquiry ω} {p : Placed} {index : UInt16} {site : CallSite} {factory : Factory}
      {reference : UInt16} (dynamic : p.instruction = .dynamicCall index)
      (judged : judge table index pool = .ok (.lambda site))
      (asks : q.Asks around owner site factory q')
      (refers : pool.memberRef reference = .ok factory.reference) :
      Chooses around owner table pool q p (some reference) q'

/-- A step on an instruction edits the pool, and can be told from any pool that comes
later. -/
theorem Scope.Replaces.settles {around : Surroundings ω} {owner : String}
    {table : List BootstrapMethod} {t t' : Standing ω} {p : Placed} {call : Option UInt16}
    (replaces : Scope.Replaces around owner table t p call t') (fits : t.pool.Fits) :
    Pool.Edited t.pool t'.pool ∧ ∀ grown, Pool.Extends t'.pool grown →
      Scope.Chooses around owner table grown t.inquiry p call t'.inquiry := by
  cases replaces with
  | other plain =>
      refine ⟨⟨.refl _, fits⟩, fun grown _ => .passed fun index dynamic => ?_⟩
      rw [Placed.isDynamicCall, dynamic] at plain
      cases plain
  | foreign dynamic judged =>
      refine ⟨⟨.refl _, fits⟩, fun grown grows => .passed fun index same => ?_⟩
      cases dynamic.symm.trans same
      exact ⟨_, _, judge_of_extends grows judged⟩
  | lambda dynamic judged asks stands interned =>
      have edited := Pool.edited_of_internMethodRef fits interned
      have refers := Pool.memberRef_of_internMethodRef fits.bounded interned
      refine ⟨edited, fun grown grows => .lambda dynamic ?_ asks (grows.retains.memberRef refers)⟩
      exact judge_of_extends (edited.grown.extends.trans grows) judged

/-- What single steps settle, a run of them settles: the pool is edited all along, and what
happened can be told from any pool that comes later. -/
theorem settle_rounds {α β : Type} {R : Standing ω → α → β → Standing ω → Prop}
    {T : Pool → Inquiry ω → α → β → Inquiry ω → Prop} {t t' : Standing ω} {as : List α}
    {bs : List β} (rounds : Rounds R t as bs t') (fits : t.pool.Fits)
    (step : ∀ a ∈ as, ∀ t b t', t.pool.Fits → R t a b t' → Pool.Edited t.pool t'.pool ∧
      ∀ grown, Pool.Extends t'.pool grown → T grown t.inquiry a b t'.inquiry) :
    Pool.Edited t.pool t'.pool ∧ ∀ grown, Pool.Extends t'.pool grown →
      Rounds (T grown) t.inquiry as bs t'.inquiry := by
  induction rounds with
  | nil t => exact ⟨⟨.refl _, fits⟩, fun grown _ => .nil _⟩
  | @cons t middle t' a b as bs first _ ih =>
      obtain ⟨edited, told⟩ := step a List.mem_cons_self t b middle fits first
      obtain ⟨editedRest, toldRest⟩ :=
        ih edited.fits fun a member => step a (List.mem_cons_of_mem _ member)
      refine ⟨edited.trans editedRest, fun grown grows => .cons (told grown ?_) (toldRest grown grows)⟩
      exact editedRest.grown.extends.trans grows

/-! ## The code of a body -/

/-- Two offsets are at the same place of two bodies: both in front of the instruction of the
same number, or both at the end. -/
def SameStop (code : List Placed) (length : Nat) (code' : List Placed) (length' : Nat)
    (old new : Nat) : Prop :=
  ∃ k : Nat, (stops code length)[k]? = some old ∧ (stops code' length')[k]? = some new

/-- What an instruction has become. Call sites are judged in `grown`, references are followed
in `output`, and targets are compared by `R`. -/
inductive Placed.Rewritten (around : Surroundings ω) (owner : String)
    (table : List BootstrapMethod) (grown output : Pool) (R : Nat → Nat → Prop) :
    Inquiry ω → Placed → Placed → Inquiry ω → Prop where
  | same {q : Inquiry ω} {p p' : Placed} (passes : p.Passes table grown)
      (relabels : p.instruction.Relabels R p'.instruction) :
      Rewritten around owner table grown output R q p p' q
  | lambda {q q' : Inquiry ω} {p p' : Placed} {index : UInt16} {site : CallSite}
      {factory : Factory} {reference : UInt16} (dynamic : p.instruction = .dynamicCall index)
      (judged : judge table index grown = .ok (.lambda site))
      (asks : q.Asks around owner site factory q')
      (static : p'.instruction = .call Opcode.invokeStatic reference)
      (refers : output.memberRef reference = .ok factory.reference) :
      Rewritten around owner table grown output R q p p' q'

section Code

variable {around : Surroundings ω} {owner : String} {table : List BootstrapMethod}

/-- A call is given for a lambda call site, and for nothing else. -/
inductive Placed.Picked (table : List BootstrapMethod) (pool : Pool) :
    Placed → Option UInt16 → Prop where
  | passed {p : Placed} (passes : p.Passes table pool) : Picked table pool p none
  | lambda {p : Placed} {index reference : UInt16} {site : CallSite}
      (dynamic : p.instruction = .dynamicCall index)
      (judged : judge table index pool = .ok (.lambda site)) : Picked table pool p (some reference)

theorem Scope.Chooses.picked {pool : Pool} {q q' : Inquiry ω} {p : Placed} {call : Option UInt16}
    (chooses : Scope.Chooses around owner table pool q p call q') : p.Picked table pool call := by
  cases chooses with
  | passed passes => exact .passed passes
  | lambda dynamic judged => exact .lambda dynamic judged

/-- If no call is given, nothing is asked. -/
theorem unasked_of_chooses {pool : Pool} {q q' : Inquiry ω} {code : List Placed}
    {calls : List (Option UInt16)}
    (rounds : Rounds (Scope.Chooses around owner table pool) q code calls q')
    (unchanged : calls.all Option.isNone = true) : q' = q := by
  induction rounds with
  | nil q => rfl
  | cons first _ ih =>
      rw [List.all_cons, Bool.and_eq_true] at unchanged
      cases first with
      | passed => exact ih unchanged.2
      | lambda => cases unchanged.1

section Picked

variable {pool : Pool} {code : List Placed} {calls : List (Option UInt16)}
  (picked : List.Forall₂ (Placed.Picked table pool) code calls)
include picked

/-- Only dynamic calls are replaced, by static ones. -/
theorem replaced_of_picked : List.Forall₂ Placed.Replaced code (replaceCalls code calls) := by
  induction picked with
  | nil => exact .nil
  | @cons p call code calls first _ ih =>
      refine .cons ?_ ih
      cases first with
      | passed => exact .kept p
      | lambda dynamic =>
          obtain ⟨offset, instruction⟩ := p
          cases dynamic
          exact .call offset _ _

/-- If no call is given, every instruction is passed over. -/
theorem passes_of_picked (unchanged : calls.all Option.isNone = true) :
    ∀ p ∈ code, p.Passes table pool := by
  intro p member
  obtain ⟨call, given, pick⟩ := round_from_mem picked member
  cases pick with
  | passed passes => exact passes
  | lambda => cases List.all_eq_true.mp unchanged _ given

/-- If a call is given, there is a lambda call site. -/
theorem lambda_of_picked (changed : calls.all Option.isNone = false) :
    ∃ p ∈ code, ∃ index site, p.instruction = .dynamicCall index ∧
      judge table index pool = .ok (.lambda site) := by
  obtain ⟨call, given, isCall⟩ := List.all_eq_false.mp changed
  obtain ⟨p, member, pick⟩ := round_of_mem picked given
  cases pick with
  | passed => exact absurd rfl isCall
  | lambda dynamic judged => exact ⟨p, member, _, _, dynamic, judged⟩

end Picked

/-- Replacing the chosen calls and moving the result rewrites the code. -/
theorem rewritten_of_moves {grown output : Pool} {map : OffsetMap} {R : Nat → Nat → Prop}
    {q q' : Inquiry ω} {code code' : List Placed} {calls : List (Option UInt16)}
    (rounds : Rounds (Scope.Chooses around owner table grown) q code calls q')
    (moves : List.Forall₂ (Placed.Moves map) (replaceCalls code calls) code')
    (retains : Pool.Retains grown output) (sends : ∀ old new, map.Sends old new → R old new) :
    Rounds (Placed.Rewritten around owner table grown output R) q code code' q' := by
  induction rounds generalizing code' with
  | nil q =>
      cases moves
      exact .nil q
  | @cons q middle q' p call code calls first _ ih =>
      rw [replaceCalls, List.zipWith_cons_cons] at moves
      cases moves with
      | @cons _ p' _ code' moved others =>
          refine .cons ?_ (ih others)
          cases first with
          | passed passes => exact .same passes (moved.2.imp sends)
          | lambda dynamic judged asks refers =>
              refine .lambda dynamic judged asks ?_ (retains.memberRef refers)
              have static := moved.2
              generalize p'.instruction = instruction at static
              cases static
              rfl

/-- The landings of a list are those of the list with its targets moved. -/
theorem landings_of_moves {map : OffsetMap} {code code' : List Placed}
    (moves : List.Forall₂ (Placed.Moves map) code code') (position : Nat) :
    landings code' position = landings code position := by
  induction moves generalizing position with
  | nil => rfl
  | cons first _ ih => rw [landings, landings, first.2.size_eq, ih]

/-- Assembled code has its stops in the order of the old ones, and every offset goes to the
stop at the same place. -/
theorem sends_iff_sameStop {code bytes : Bytes} {before after moved : List Placed}
    {map : OffsetMap} (decoded : decode code = .ok before)
    (replaced : List.Forall₂ Placed.Replaced before after)
    (assembled : assemble after code.length = .ok (bytes, map))
    (moves : List.Forall₂ (Placed.Moves map) after moved) (tiles : Tiles 0 bytes moved)
    (old new : Nat) :
    map.Sends old new ↔ SameStop before code.length moved bytes.length old new := by
  obtain ⟨rfl, -⟩ := assemble_eq_ok.mp assembled
  have landed : landings after 0 = stops moved bytes.length := by
    rw [← landings_of_moves moves, ← tiles.stops_eq_landings, Nat.zero_add]
  rw [(sends_layOut decoded replaced).1, landed, stops_of_replaced code.length replaced,
    List.mem_iff_getElem?]
  simp only [List.getElem?_zip_eq_some, SameStop]

/-- No instruction is rewritten into a lambda call site. -/
theorem Placed.Rewritten.passes {grown output : Pool} {R : Nat → Nat → Prop} {q q' : Inquiry ω}
    {p p' : Placed} (rewritten : Placed.Rewritten around owner table grown output R q p p' q') :
    p'.Passes table grown := by
  intro index dynamic
  cases rewritten with
  | same passes relabels =>
      rw [dynamic] at relabels
      generalize old : p.instruction = instruction at relabels
      cases relabels
      exact passes index old
  | lambda _ _ _ static _ => cases dynamic.symm.trans static

theorem passes_of_rewritten {grown output : Pool} {R : Nat → Nat → Prop} {q q' : Inquiry ω}
    {code code' : List Placed}
    (rounds : Rounds (Placed.Rewritten around owner table grown output R) q code code' q') :
    ∀ p' ∈ code', p'.Passes table grown := by
  have each : List.Forall₂ (fun _ p' => p'.Passes table grown) code code' :=
    rounds.forall₂ fun _ _ _ _ => Placed.Rewritten.passes
  intro p' member
  obtain ⟨_, _, passes⟩ := round_of_mem each member
  exact passes

end Code

/-! ## Methods -/

section Methods

variable (around : Surroundings ω) (owner : String) (table : List BootstrapMethod)
  (grown output : Pool)

/-- What a method has become. Only the contents of its body's attribute may differ, and only
if there is a lambda call site in its code. -/
inductive Member.Changes : Inquiry ω → Member → Member → Inquiry ω → Prop where
  | bare {q : Inquiry ω} {m : Member} (bodiless : m.bodyPosition grown = .ok none) :
      Changes q m m q
  | untouched {q : Inquiry ω} {m : Member} {n : Nat} {a : Attribute} {body : Body}
      {code : List Placed} (positioned : m.bodyPosition grown = .ok (some n))
      (held : m.attributes[n]? = some a) (parsed : Body.parse a.info = .ok body)
      (decoded : decode body.code = .ok code) (passes : ∀ p ∈ code, p.Passes table grown) :
      Changes q m m q
  | rebuilt {q q' : Inquiry ω} {m : Member} {n : Nat} {a : Attribute} {body body' : Body}
      {code code' : List Placed} (positioned : m.bodyPosition grown = .ok (some n))
      (held : m.attributes[n]? = some a) (parsed : Body.parse a.info = .ok body)
      (decoded : decode body.code = .ok code)
      (lambda : ∃ p ∈ code, ∃ index site, p.instruction = .dynamicCall index ∧
        judge table index grown = .ok (.lambda site))
      (fits : body'.Fits) (short : body'.write.length < 4294967296)
      (decoded' : decode body'.code = .ok code')
      (rounds : Rounds (Placed.Rewritten around owner table grown output
        (SameStop code body.code.length code' body'.code.length)) q code code' q') :
      Changes q m { m with attributes := m.attributes.set n { a with info := body'.write } } q'

variable {around owner table}

/-- Only the attributes of a method change. -/
theorem Member.Changes.frame {grown output : Pool} {q q' : Inquiry ω} {m m' : Member}
    (changes : Member.Changes around owner table grown output q m m' q') :
    ∃ attributes, m' = { m with attributes := attributes } := by
  cases changes with
  | bare => exact ⟨m.attributes, rfl⟩
  | untouched => exact ⟨m.attributes, rfl⟩
  | rebuilt => exact ⟨_, rfl⟩

theorem Member.Changes.fits {grown output : Pool} {q q' : Inquiry ω} {m m' : Member}
    (changes : Member.Changes around owner table grown output q m m' q') (fits : m.Fits) :
    m'.Fits := by
  cases changes with
  | bare => exact fits
  | untouched => exact fits
  | rebuilt _ _ _ _ _ _ short => exact Attribute.TableFits.set fits _ short

/-- Setting what is there changes nothing. -/
theorem Member.set_info_self {m : Member} {n : Nat} {a : Attribute}
    (held : m.attributes[n]? = some a) :
    { m with attributes := m.attributes.set n { a with info := a.info } } = m := by
  have same : m.attributes.set n { a with info := a.info } = m.attributes := by
    obtain ⟨inside, rfl⟩ := List.getElem?_eq_some_iff.mp held
    exact List.set_getElem_self inside
  rw [same]

/-- A rebuilt body is within the limits of the format and decodes to the rewritten code. -/
theorem rebuilt_of_assemble {grown output pool : Pool} {q q' : Inquiry ω} {info bytes : Bytes}
    {body body' : Body} {code : List Placed} {calls : List (Option UInt16)} {map : OffsetMap}
    (short : info.length < 1073741824) (parsed : Body.parse info = .ok body)
    (decoded : decode body.code = .ok code)
    (rounds : Rounds (Scope.Chooses around owner table grown) q code calls q')
    (assembled : assemble (replaceCalls code calls) body.code.length = .ok (bytes, map))
    (relocated : body.relocate pool map bytes = .ok body') (retains : Pool.Retains grown output) :
    body'.Fits ∧ body'.write.length < 4294967296 ∧ ∃ code', decode body'.code = .ok code' ∧
      Rounds (Placed.Rewritten around owner table grown output
        (SameStop code body.code.length code' body'.code.length)) q code code' q' := by
  obtain ⟨fits, rfl⟩ := Body.parse_eq_ok.mp parsed
  have replaced := replaced_of_picked (rounds.forall₂ fun _ _ _ _ => Scope.Chooses.picked)
  obtain ⟨ending, code', moves, tiles⟩ := tiles_of_assemble decoded replaced assembled
  have shorter : bytes.length ≤ body.code.length := by
    obtain ⟨rfl, -⟩ := assemble_eq_ok.mp assembled
    exact (sends_layOut decoded replaced).2 _ _ ending
  obtain ⟨sameCode, bound⟩ := Body.length_relocate relocated shorter
  have bodyShort : body'.write.length < 4294967296 := by omega
  have infosShort : ∀ a ∈ body'.attributes, a.info.length < 4294967296 := fun a member => by
    have room := Body.info_length_le_write member
    omega
  refine ⟨Body.fits_relocate relocated shorter fits infosShort, bodyShort, code', ?_, ?_⟩
  · rw [sameCode]
    exact decode_eq_ok.mpr tiles
  · rw [sameCode]
    exact rewritten_of_moves rounds moves retains fun old new =>
      (sends_iff_sameStop decoded replaced assembled moves tiles old new).mp

/-- A step on a method edits the pool, and can be told from any pool that comes later. -/
theorem Member.Substitutes.settles {t t' : Standing ω} {m m' : Member}
    (substitutes : Member.Substitutes around owner table t m m' t') (fits : t.pool.Fits)
    (short : ∀ a ∈ m.attributes, a.info.length < 1073741824) :
    Pool.Edited t.pool t'.pool ∧ ∀ grown, Pool.Extends t'.pool grown →
      (∃ text, m.signature grown = .ok text) ∧ ∀ output, Pool.Retains grown output →
        Member.Changes around owner table grown output t.inquiry m m' t'.inquiry := by
  cases substitutes with
  | bare signed bodiless =>
      refine ⟨⟨.refl _, fits⟩, fun grown grows => ⟨⟨_, grows.retains.signature signed⟩, ?_⟩⟩
      exact fun output _ => .bare (grows.retains.position bodiless)
  | @body _ _ text n a info signed positioned held changes =>
      have shortInfo := short a (List.mem_of_getElem? held)
      cases changes with
      | untouched parsed decoded rounds unchanged =>
          obtain ⟨edited, told⟩ := settle_rounds rounds fits fun p _ t call t' fits replaces =>
            replaces.settles fits
          refine ⟨edited, fun grown grows => ?_⟩
          have retained := edited.retains.trans grows.retains
          have chosen := told grown grows
          have picked := chosen.forall₂ fun _ _ _ _ => Scope.Chooses.picked
          refine ⟨⟨text, retained.signature signed⟩, fun output _ => ?_⟩
          rw [Member.set_info_self held, unasked_of_chooses chosen unchanged]
          exact .untouched (retained.position positioned) held parsed decoded
            (passes_of_picked picked unchanged)
      | rebuilt parsed decoded rounds changed assembled relocated =>
          obtain ⟨edited, told⟩ := settle_rounds rounds fits fun p _ t call t' fits replaces =>
            replaces.settles fits
          refine ⟨edited, fun grown grows => ?_⟩
          have retained := edited.retains.trans grows.retains
          have chosen := told grown grows
          have picked := chosen.forall₂ fun _ _ _ _ => Scope.Chooses.picked
          refine ⟨⟨text, retained.signature signed⟩, fun output retains => ?_⟩
          obtain ⟨bodyFits, bodyShort, code', decoded', rewritten⟩ := rebuilt_of_assemble
            shortInfo parsed decoded chosen assembled relocated retains
          exact .rebuilt (retained.position positioned) held parsed decoded
            (lambda_of_picked picked changed) bodyFits bodyShort decoded' rewritten

end Methods

end Downlevel
