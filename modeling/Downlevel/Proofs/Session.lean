/-
# Downlevel.Proofs.Session — runs that number their factories

A run is a list of classes lowered one after the other. `Surroundings.NumbersFactories` says that
classes are looked up in the same way at all times, and that every factory is named by the next
number. Then a run can be repeated: whether its session was just made or is restarted after any
other use (`Session.Ready`), and whatever number was drawn last, the requests of the run are
numbered from 1, and the results are those of any other run over the same classes
(`lowerAll_reproducible`). No two synthesized classes of a run have the same name, since a number
can be read off the end of the name.

One step of the induction is a class (`lower_counted`), and `Counted` is what it keeps: the
numbering stands at the number of requests that were made, and each of them was answered by its
own number.
-/
import Downlevel.Proofs.LambdaNames
import Downlevel.Proofs.Requests

namespace Downlevel

set_option autoImplicit false

open Sequencing

variable {ω ω' : Type}

/-! ## Names -/

/-- What follows the last dollar sign of a synthesized name is its number. -/
theorem afterLastDollar_synthesizedName (owner : String) (number : UInt32) :
    afterLastDollar (synthesizedName owner number).toList = Nat.toDigits 10 number.toNat := by
  have plain (c : Char) (held : c ∈ Nat.toDigits 10 number.toNat) : c ≠ '$' :=
    ne_dollar_of_digit (isDigit_iff.mp (Nat.isDigit_of_mem_toDigits (by decide) (by decide) held))
  have parts : (synthesizedName owner number).toList =
      owner.toList ++ "$$Lambda".toList ++ '$' :: Nat.toDigits 10 number.toNat := by
    simp [synthesizedName]
  rw [parts]
  exact afterLastDollar_append _ plain

theorem synthesizedName_inj {owner owner' : String} {number number' : UInt32}
    (same : synthesizedName owner number = synthesizedName owner' number') : number = number' := by
  have digits : Nat.toDigits 10 number.toNat = Nat.toDigits 10 number'.toNat := by
    rw [← afterLastDollar_synthesizedName owner, same, afterLastDollar_synthesizedName]
  refine UInt32.toNat_inj.mp ?_
  calc
    number.toNat = Nat.ofDigitChars 10 (Nat.toDigits 10 number.toNat) 0 :=
      Nat.ofDigitChars_ten_toDigits.symm
    _ = Nat.ofDigitChars 10 (Nat.toDigits 10 number'.toNat) 0 := by rw [digits]
    _ = number'.toNat := Nat.ofDigitChars_ten_toDigits

/-! ## Runs -/

/-- Lowers classes to their targets one after the other. -/
def Session.lowerAll (around : Surroundings ω) (session : Session) (world : ω) :
    List (Version × Bytes) → List (Except Failure Bytes) × Session × ω
  | [] => ([], session, world)
  | call :: calls =>
      let first := session.lower around call.1 call.2 world
      let rest := lowerAll around first.2 first.1.world calls
      (first.1.result :: rest.1, rest.2)

namespace Session

theorem lowerAll_cons (around : Surroundings ω) (session : Session) (world : ω)
    (call : Version × Bytes) (calls : List (Version × Bytes)) :
    session.lowerAll around world (call :: calls) =
      ((session.lower around call.1 call.2 world).1.result ::
          ((session.lower around call.1 call.2 world).2.lowerAll around
            (session.lower around call.1 call.2 world).1.world calls).1,
        ((session.lower around call.1 call.2 world).2.lowerAll around
          (session.lower around call.1 call.2 world).1.world calls).2) :=
  rfl

theorem begin_of_started {session : Session} (started : session.started = true) :
    session.begin = session :=
  if_pos started

theorem begin_of_unstarted {session : Session} (unstarted : session.started = false) :
    session.begin = { session with numbering := .fresh, started := true } :=
  if_neg (by simp [unstarted])

/-- A session at the start of a run: it was just made, or it was restarted after any use. -/
inductive Ready : Session → Prop where
  | new (target : Version) (numbering : Numbering) : Ready (Session.new target numbering)
  | restart (session : Session) : Ready session.restart

theorem Ready.unstarted {session : Session} (ready : session.Ready) : session.started = false := by
  cases ready with
  | new target numbering => rfl
  | restart session => rfl

/-- A run numbers from the start, whatever was numbered before it. -/
theorem Ready.begin_numbering {session : Session} (ready : session.Ready) :
    session.begin.numbering = .fresh := by
  rw [begin_of_unstarted ready.unstarted]

theorem started_begin (session : Session) : session.begin.started = true := by
  cases started : session.started with
  | true => rw [begin_of_started started, started]
  | false => rw [begin_of_unstarted started]

/-- The run has begun after a class, whatever came of it. -/
theorem started_lower (session : Session) (around : Surroundings ω) (target : Version)
    (bytes : Bytes) (world : ω) : (session.lower around target bytes world).2.started = true :=
  session.started_begin

theorem begin_lower (session : Session) (around : Surroundings ω) (target : Version) (bytes : Bytes)
    (world : ω) : (session.lower around target bytes world).2.begin =
      (session.lower around target bytes world).2 :=
  begin_of_started (session.started_lower around target bytes world)

theorem started_lowerAll (around : Surroundings ω) (calls : List (Version × Bytes))
    {session : Session} (started : session.started = true) (world : ω) :
    (session.lowerAll around world calls).2.1.started = true := by
  induction calls generalizing session world with
  | nil => exact started
  | cons call calls ih =>
      simp only [lowerAll_cons]
      exact ih (session.started_lower around call.1 call.2 world) _

theorem begin_lowerAll (around : Surroundings ω) {calls : List (Version × Bytes)}
    (session : Session) (world : ω) (nonempty : calls ≠ []) :
    (session.lowerAll around world calls).2.1.begin =
      (session.lowerAll around world calls).2.1 := by
  cases calls with
  | nil => exact absurd rfl nonempty
  | cons call calls =>
      simp only [lowerAll_cons]
      exact begin_of_started (started_lowerAll around calls
        (session.started_lower around call.1 call.2 world) _)

/-- A run with a record and without one. -/
theorem lowerAll_recorded (around : Surroundings ω) (calls : List (Version × Bytes))
    (session : Session) (world : ω × List Query) :
    session.lowerAll around world.1 calls =
      ((session.lowerAll around.recorded world calls).1,
        (session.lowerAll around.recorded world calls).2.1,
        (session.lowerAll around.recorded world calls).2.2.1) := by
  induction calls generalizing session world with
  | nil => rfl
  | cons call calls ih =>
      obtain ⟨result, numbered, left⟩ := lower_recorded around call.1 call.2
        session.begin.numbering world.1 world.2
      have others := ih (session.lower around.recorded call.1 call.2 world).2
        (session.lower around.recorded call.1 call.2 world).1.world
      rw [lowerAll_cons, lowerAll_cons]
      simp only [Session.lower] at others ⊢
      rw [result, numbered, left, others]

end Session

/-- Classes are looked up with the given answers, and each factory is named by the next number. -/
structure Surroundings.NumbersFactories (around : Surroundings ω)
    (answers : String → Except ResolutionError ClassHandle) : Prop where
  resolve (name : String) (world : ω) : (around.resolve name world).1 = answers name
  name (request : Request) (numbering : Numbering) (world : ω) :
    (around.nameFactory request numbering world).1 =
        .ok (Factory.nextFor request.owner.name request.site numbering).1 ∧
      (around.nameFactory request numbering world).2.1 =
        (Factory.nextFor request.owner.name request.site numbering).2

def Query.exchange? : Query → Option Exchange
  | .naming exchange => some exchange
  | .lookup _ _ => none

/-- The requests of a record. -/
def requests (queries : List Query) : List Exchange :=
  queries.filterMap Query.exchange?

theorem requests_append (queries more : List Query) :
    requests (queries ++ more) = requests queries ++ requests more :=
  List.filterMap_append

theorem requests_map_naming (asked : List Exchange) : requests (asked.map .naming) = asked := by
  unfold requests
  rw [List.filterMap_map]
  exact List.filterMap_some

/-! ## Counting -/

/-- The numbering stands at the number of requests, and each was answered by its own number. -/
structure Counted (numbering : Numbering) (queries : List Query) : Prop where
  last : numbering.last = UInt32.ofNat (requests queries).length
  named {j : Nat} {x : Exchange} (held : (requests queries)[j]? = some x) :
    x.answer = .ok
      (Factory.forSite (synthesizedName x.request.owner.name (UInt32.ofNat (j + 1))) x.request.site)

theorem counted_fresh : Counted .fresh [] where
  last := rfl
  named held := by cases held

theorem Counted.lookup {numbering : Numbering} {queries : List Query}
    (counted : Counted numbering queries) (name : String)
    (answer : Except ResolutionError ClassHandle) :
    Counted numbering (queries ++ [.lookup name answer]) := by
  have same : requests (queries ++ [.lookup name answer]) = requests queries := by
    rw [requests_append]
    exact List.append_nil _
  constructor
  · rw [same]
    exact counted.last
  · rw [same]
    exact counted.named

theorem Counted.naming {numbering : Numbering} {queries : List Query}
    (counted : Counted numbering queries) (request : Request) :
    Counted (Factory.nextFor request.owner.name request.site numbering).2
      (queries ++ [.naming ⟨request,
        .ok (Factory.nextFor request.owner.name request.site numbering).1⟩]) := by
  have next : numbering.last + 1 = UInt32.ofNat ((requests queries).length + 1) := by
    rw [counted.last, UInt32.ofNat_add]
    rfl
  have more (x : Exchange) : requests (queries ++ [.naming x]) = requests queries ++ [x] :=
    requests_append queries [.naming x]
  constructor
  · rw [more, List.length_append]
    exact next
  · intro j x held
    rw [more] at held
    rcases Nat.lt_trichotomy j (requests queries).length with before | rfl | after
    · rw [List.getElem?_append_left before] at held
      exact counted.named held
    · rw [List.getElem?_concat_length] at held
      cases held
      rw [← next]
      rfl
    · rw [List.getElem?_eq_none (by simp; omega)] at held
      cases held

namespace Counted

variable {numbering : Numbering} {queries : List Query} (counted : Counted numbering queries)
  (few : (requests queries).length < 4294967296)

omit counted in
include few in
theorem toNat_number {j : Nat} (within : j < (requests queries).length) :
    (UInt32.ofNat (j + 1)).toNat = j + 1 :=
  UInt32.toNat_ofNat_of_lt (Nat.lt_of_le_of_lt within few)

include counted few

theorem toNat_last : numbering.last.toNat = (requests queries).length := by
  rw [counted.last]
  exact UInt32.toNat_ofNat_of_lt few

theorem answer {j : Nat} {x : Exchange} (held : (requests queries)[j]? = some x) :
    x.answer = .ok ⟨x.request.owner.name ++ "$$Lambda$" ++ toString (j + 1), factoryName,
      x.request.site.descriptor⟩ := by
  have named := counted.named held
  rw [synthesizedName, toNat_number few (List.getElem?_eq_some_iff.mp held).1] at named
  exact named

/-- Numbers that are different make different names, whatever the classes are called. -/
theorem nodup_owners :
    ((requests queries).map fun x => x.answer.toOption.map Factory.owner).Nodup := by
  refine List.pairwise_iff_getElem.mpr fun i j inside inside' before equal => ?_
  rw [List.length_map] at inside inside'
  simp only [List.getElem_map, counted.named (List.getElem?_eq_getElem inside),
    counted.named (List.getElem?_eq_getElem inside')] at equal
  have numbered := congrArg UInt32.toNat (synthesizedName_inj (Option.some.inj equal))
  rw [toNat_number few inside, toNat_number few inside'] at numbered
  omega

end Counted

section Coupling

variable {around : Surroundings ω} {around' : Surroundings ω'}
  {answers : String → Except ResolutionError ClassHandle}
  (numbers : around.NumbersFactories answers) (numbers' : around'.NumbersFactories answers)
include numbers numbers'

theorem coupled_counted (owner : String) :
    Coupled around.recorded around' owner fun t t' =>
      t.inquiry.owner = t'.inquiry.owner ∧ t.inquiry.numbering = t'.inquiry.numbering ∧
        t.pool = t'.pool ∧ Counted t.inquiry.numbering t.inquiry.world.2 where
  pool related := related.2.2.1
  known related := related.1
  resolve := by
    rintro t t' ⟨known, numbered, pools, counted⟩ -
    have same : (around.resolve owner t.inquiry.world.1).1 =
        (around'.resolve owner t'.inquiry.world).1 :=
      (numbers.resolve owner _).trans (numbers'.resolve owner _).symm
    exact ⟨same, fun handle => ⟨rfl, numbered, pools, counted.lookup _ _⟩⟩
  name := by
    rintro ⟨⟨known, numbering, world, queries⟩, pool⟩ ⟨⟨_, _, world'⟩, _⟩
      ⟨⟨⟩, ⟨⟩, ⟨⟩, counted⟩ request
    obtain ⟨named, drawn⟩ := numbers.name request numbering world
    obtain ⟨named', drawn'⟩ := numbers'.name request numbering world'
    refine ⟨named.trans named'.symm, rfl, drawn.trans drawn'.symm, rfl, ?_⟩
    have more := counted.naming request
    rw [← named, ← drawn] at more
    exact more
  grow := by
    rintro t t' ⟨known, numbered, pools, counted⟩ pool -
    exact ⟨known, numbered, rfl, counted⟩

/-- A class keeps the count, and is lowered to the same result by whoever counts alike. -/
theorem lower_counted (target : Version) (bytes : Bytes) {numbering : Numbering}
    {world : ω × List Query} (world' : ω') (counted : Counted numbering world.2) :
    (lower around.recorded target bytes numbering world).result =
        (lower around' target bytes numbering world').result ∧
      (lower around.recorded target bytes numbering world).numbering =
        (lower around' target bytes numbering world').numbering ∧
      Counted (lower around.recorded target bytes numbering world).numbering
        (lower around.recorded target bytes numbering world).world.2 := by
  refine lower_coupled (Q := fun numbering world numbering' _ =>
    numbering = numbering' ∧ Counted numbering world.2) (coupled_counted numbers numbers') ?_ ?_
  · exact fun pool => ⟨rfl, rfl, rfl, counted⟩
  · exact fun t t' related => ⟨related.2.1, related.2.2.2⟩

theorem lowerAll_counted (calls : List (Version × Bytes)) {session session' : Session}
    (same : session.begin.numbering = session'.begin.numbering) (world : ω × List Query)
    (world' : ω') (counted : Counted session.begin.numbering world.2) :
    (session.lowerAll around.recorded world calls).1 = (session'.lowerAll around' world' calls).1 ∧
      Counted (session.lowerAll around.recorded world calls).2.1.begin.numbering
        (session.lowerAll around.recorded world calls).2.2.2 := by
  induction calls generalizing session session' world world' with
  | nil => exact ⟨rfl, counted⟩
  | cons call calls ih =>
      obtain ⟨result, numbered, still⟩ :=
        lower_counted numbers numbers' call.1 call.2 world' counted
      have next : (session.lower around.recorded call.1 call.2 world).2.begin.numbering =
          (session'.lower around' call.1 call.2 world').2.begin.numbering := by
        rw [Session.begin_lower, Session.begin_lower]
        rw [same] at numbered
        simp only [Session.lower, same, numbered]
      have kept : Counted (session.lower around.recorded call.1 call.2 world).2.begin.numbering
          (session.lower around.recorded call.1 call.2 world).1.world.2 := by
        rw [Session.begin_lower]
        exact still
      obtain ⟨others, final⟩ := ih next _ (session'.lower around' call.1 call.2 world').1.world kept
      simp only [Session.lowerAll_cons]
      refine ⟨congrArg₂ List.cons ?_ others, final⟩
      rw [same] at result
      simp only [Session.lower, same, result]

end Coupling

/-! ## Reproducible runs -/

/-- A run can be repeated, by a session that was just made or one that is restarted after any
use. The surroundings number the factories, the numbering is used by nobody else, and fewer than
2³² factories are requested.

* The numbering is started anew before the first class, whatever becomes of it, and at no other.
* The requests are answered by the numbers 1, 2, 3 and so on, and no class is synthesized twice.
* Another run over the same classes gives the same results, whatever was numbered before it. -/
theorem lowerAll_reproducible {around : Surroundings ω} {around' : Surroundings ω'}
    {answers : String → Except ResolutionError ClassHandle}
    (numbers : around.NumbersFactories answers) (numbers' : around'.NumbersFactories answers)
    {session session' : Session} (ready : session.Ready) (ready' : session'.Ready) (world : ω)
    (world' : ω') (calls : List (Version × Bytes))
    (few : (requests (session.lowerAll around.recorded (world, []) calls).2.2.2).length <
      4294967296) :
    let run := session.lowerAll around world calls
    let recorded := session.lowerAll around.recorded (world, []) calls
    let asked := requests recorded.2.2.2
    run = (recorded.1, recorded.2.1, recorded.2.2.1) ∧
      (∀ before call after, calls = before ++ call :: after →
        let reached := (session.lowerAll around world before).2.1
        (before = [] → reached.begin.numbering = .fresh) ∧
          (before ≠ [] → reached.begin = reached)) ∧
      (∀ (j : Nat) (x : Exchange), asked[j]? = some x →
        x.answer = .ok ⟨x.request.owner.name ++ "$$Lambda$" ++ toString (j + 1), factoryName,
          x.request.site.descriptor⟩) ∧
      (asked.map fun x => x.answer.toOption.map Factory.owner).Nodup ∧
      (calls ≠ [] → run.2.1.numbering.last.toNat = asked.length) ∧
      run.1 = (session'.lowerAll around' world' calls).1 := by
  intro run recorded asked
  have fresh := ready.begin_numbering
  obtain ⟨results, counted⟩ := lowerAll_counted numbers numbers' calls
    (fresh.trans ready'.begin_numbering.symm) (world, []) world' (fresh ▸ counted_fresh)
  have same : run = (recorded.1, recorded.2.1, recorded.2.2.1) :=
    Session.lowerAll_recorded around calls session (world, [])
  refine ⟨same, fun before call after _ => ⟨?_, ?_⟩, fun j x held => counted.answer few held,
    counted.nodup_owners few, fun nonempty => ?_, ?_⟩
  · rintro rfl
    exact fresh
  · exact session.begin_lowerAll around world
  · have last := counted.toNat_last few
    rw [session.begin_lowerAll around.recorded (world, []) nonempty] at last
    rw [same]
    exact last
  · rw [same]
    exact results

namespace Looping

theorem numbersFactories :
    surroundings.NumbersFactories fun name => .ok ⟨name, .file ⟨[]⟩, [], 0⟩ :=
  ⟨fun _ _ => rfl, fun _ _ _ => ⟨rfl, rfl⟩⟩

/-- Nothing that is a class, and then the class with a call site for two versions. -/
def calls : List (Version × Bytes) :=
  [(⟨50, 0⟩, []), (⟨51, 0⟩, input.write), (⟨50, 0⟩, input.write)]

/-- There are not more requests than there are instructions. -/
theorem length_requests_le (target : Version) (session : Session) (world : Unit × List Query) :
    (requests (session.lower surroundings.recorded target input.write world).1.world.2).length ≤
      (requests world.2).length + 3 := by
  obtain ⟨notes, ready⟩ := prepare_eq_ok target
  obtain ⟨more, record, reached, asked, grown, turns, first, -, asks⟩ :=
    askedInOrder_of_prepared surroundings session.begin.numbering world.1 world.2 ready
  have still : method.instructions grown = .ok code :=
    (grown_of_turns turns).extends.retains.instructions instructions_method
  have sites : ((prepared target).lambdaCalls grown).length ≤ 3 := by
    show (List.flatMap _ [method]).length ≤ 3
    rw [List.flatMap_singleton, Member.lambdaCalls_of_instructions still]
    exact List.length_filter_le _ code
  have paired : reached.length = asked.length :=
    (turns.forall₂ (S := fun _ _ => True) fun _ _ _ _ _ => trivial).length_eq
  have added : requests more = asked := by
    rcases asks with ⟨-, answer, rfl, -⟩ | ⟨-, rfl, rfl⟩
    · exact requests_map_naming asked
    · rfl
  have few := first.length_le
  simp only [Session.lower]
  rw [record, requests_append, List.length_append, added]
  omega

theorem length_requests_calls (session : Session) :
    (requests (session.lowerAll surroundings.recorded ((), []) calls).2.2.2).length ≤ 6 := by
  obtain ⟨e, notes, failed⟩ : ∃ e notes, (prepare ⟨50, 0⟩ []).run #[] = (.error e, notes) :=
    ⟨_, _, rfl⟩
  obtain ⟨-, kept, -⟩ := asksNobody_of_failed failed _ _ surroundings.recorded surroundings.recorded
    session session ((), []) ((), [])
  let session₁ := (session.lower surroundings.recorded ⟨50, 0⟩ [] ((), [])).2
  have ran : (session.lowerAll surroundings.recorded ((), []) calls).2.2 =
      ((session₁.lower surroundings.recorded ⟨51, 0⟩ input.write ((), [])).2.lower
        surroundings.recorded ⟨50, 0⟩ input.write
        (session₁.lower surroundings.recorded ⟨51, 0⟩ input.write ((), [])).1.world).1.world := by
    simp only [calls, Session.lowerAll_cons, kept, Session.lowerAll, session₁]
  have first := length_requests_le ⟨51, 0⟩ session₁ ((), [])
  rw [ran]
  exact Nat.le_trans (length_requests_le ⟨50, 0⟩ _ _) (Nat.add_le_add_right first 3)

/-- A session that lowered the class, after other numbers. -/
def used : Session :=
  ((Session.new ⟨52, 0⟩ ⟨7⟩).lowerAll surroundings () [(⟨51, 0⟩, input.write)]).2.1

/-- It has begun a run and has drawn a number in it. -/
theorem used_eq : used = ⟨⟨52, 0⟩, ⟨1⟩, true⟩ := by
  obtain ⟨notes, ran⟩ := lower_eq_ok.mpr
    ⟨stages, reached, (rfl : (stages.output ⟨51, 0⟩).write = _), rfl, rfl⟩
  have begun : (Session.new ⟨52, 0⟩ ⟨7⟩).begin = ⟨⟨52, 0⟩, .fresh, true⟩ := rfl
  rw [used, Session.lowerAll_cons, Session.lower, begun, ran]
  rfl

end Looping

/-- Two runs over the class with a call site: one by a session that is restarted after it drew a
number, and one by a session that was just made. -/
theorem lowerAll_reproducible_looping :
    let made := Session.new ⟨50, 0⟩ ⟨41⟩
    let asked := requests
      (Looping.used.restart.lowerAll Looping.surroundings.recorded ((), []) Looping.calls).2.2.2
    Looping.used = ⟨⟨52, 0⟩, ⟨1⟩, true⟩ ∧ Looping.used.restart.Ready ∧ made.Ready ∧
      asked.length < 4294967296 ∧
      (∀ (j : Nat) (x : Exchange), asked[j]? = some x → x.answer = .ok ⟨x.request.owner.name ++
        "$$Lambda$" ++ toString (j + 1), factoryName, x.request.site.descriptor⟩) ∧
      (asked.map fun x => x.answer.toOption.map Factory.owner).Nodup ∧
      (Looping.used.restart.lowerAll Looping.surroundings () Looping.calls).1 =
        (made.lowerAll Looping.surroundings () Looping.calls).1 := by
  intro made asked
  have restarted : Looping.used.restart.Ready := .restart Looping.used
  have fresh : made.Ready := .new ⟨50, 0⟩ ⟨41⟩
  have few : asked.length < 4294967296 :=
    Nat.lt_of_le_of_lt (Looping.length_requests_calls Looping.used.restart) (by decide)
  obtain ⟨-, -, numbered, distinct, -, same⟩ := lowerAll_reproducible Looping.numbersFactories
    Looping.numbersFactories restarted fresh () () Looping.calls few
  exact ⟨Looping.used_eq, restarted, fresh, few, numbered, distinct, same⟩

end Downlevel
