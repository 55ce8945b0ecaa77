/-
# Downlevel.Proofs.Retention — which methods stay, and how

The methods that stay are those of the class in their order, without the bridges if it is
an interface (`ClassFile.staying`). Each of them keeps everything but its private flag,
which is cleared if the method is the body of a lambda (`Member.opened`). Those that have a
body in an interface are reported, in their order as well (`ClassFile.reports_retainMethods`).
A class whose methods have gone through this once keeps all of them as they are
(`ClassFile.RetainsMethods.again`).
-/
import Downlevel.Proofs.LambdaNames
import Downlevel.Proofs.Note
import Downlevel.Retention

namespace Downlevel

set_option autoImplicit false

open Sequencing Noted

/-! ## Flags -/

namespace Access

/-- A flag of a single bit is set if the bit is. -/
theorem has_eq_bit (bits : UInt16) {flag : UInt16} {n : Nat} (small : n < 16)
    (single : flag.toBitVec = BitVec.twoPow 16 n) : has bits flag = bits.toBitVec.getLsbD n := by
  unfold has
  rw [Bool.eq_iff_iff, beq_iff_eq, ← UInt16.toBitVec_inj, UInt16.toBitVec_and, single,
    BitVec.and_twoPow]
  split
  · rename_i set
    simp [set]
  · rename_i cleared
    simp only [cleared, Bool.false_eq_true, iff_false]
    intro same
    have bit := congrArg (BitVec.getLsbD · n) same
    simp [small] at bit

theorem has_private (bits : UInt16) : has bits privateFlag = bits.toBitVec.getLsbD 1 :=
  has_eq_bit bits (by decide) rfl

theorem bit_nonPrivate (bits : UInt16) (n : Nat) :
    (nonPrivate bits).toBitVec.getLsbD n = (bits.toBitVec.getLsbD n && !decide (n = 1)) := by
  unfold nonPrivate without
  rw [UInt16.toBitVec_and, UInt16.toBitVec_not, BitVec.getLsbD_and, BitVec.getLsbD_not,
    show privateFlag.toBitVec = BitVec.twoPow 16 1 from rfl, BitVec.getLsbD_twoPow]
  by_cases inside : n < 16
  · by_cases bit : n = 1
    · simp [bit]
    · simp [inside, bit, Ne.symm bit]
  · simp [BitVec.getLsbD_of_ge bits.toBitVec n (by omega)]

theorem has_private_nonPrivate (bits : UInt16) : has (nonPrivate bits) privateFlag = false := by
  rw [has_private, bit_nonPrivate]
  exact Bool.and_false _

/-- Every other flag stays as it was. -/
theorem has_nonPrivate (bits : UInt16) {flag : UInt16} {n : Nat} (small : n < 16)
    (single : flag.toBitVec = BitVec.twoPow 16 n) (other : n ≠ 1) :
    has (nonPrivate bits) flag = has bits flag := by
  rw [has_eq_bit _ small single, has_eq_bit _ small single, bit_nonPrivate]
  simp [other]

theorem nonPrivate_eq_self {bits : UInt16} (cleared : has bits privateFlag = false) :
    nonPrivate bits = bits := by
  rw [has_private] at cleared
  apply UInt16.toBitVec_inj.mp
  apply BitVec.eq_of_getLsbD_eq
  intro n _
  rw [bit_nonPrivate]
  by_cases bit : n = 1
  · rw [bit, cleared]
    rfl
  · simp [bit]

end Access

/-! ## One method -/

namespace Member

/-- Whether the method stays in a class or, if `ofInterface`, in an interface. -/
def stays (ofInterface : Bool) (m : Member) : Bool :=
  !(ofInterface && Access.has m.access Access.bridgeFlag)

/-- The method of that name as it stays. -/
def opened (name : String) (m : Member) : Member :=
  { m with access := if isLambdaBody name then Access.nonPrivate m.access else m.access }

/-- Whether the method, if it stays, is reported: it has a body in an interface. -/
def isReported (ofInterface : Bool) (m : Member) : Bool :=
  ofInterface && !Access.has m.access Access.abstractFlag

theorem signature_eq_ok {pool : Pool} {m : Member} {signature : String} :
    m.signature pool = .ok signature ↔ ∃ name descriptor, m.nameText pool = .ok name ∧
      m.descriptorText pool = .ok descriptor ∧ signature = name ++ descriptor := by
  unfold Member.signature
  simp only [bind_eq_ok, pure_eq_ok]
  constructor
  · intro signed
    obtain ⟨name, named, descriptor, described, rfl⟩ := signed
    exact ⟨name, descriptor, named, described, rfl⟩
  · intro signed
    obtain ⟨name, descriptor, named, described, rfl⟩ := signed
    exact ⟨name, named, descriptor, described, rfl⟩

/-- Opening a method touches no flag but the private one. -/
theorem has_opened (name : String) (m : Member) {flag : UInt16} {n : Nat} (small : n < 16)
    (single : flag.toBitVec = BitVec.twoPow 16 n) (other : n ≠ 1) :
    Access.has (m.opened name).access flag = Access.has m.access flag := by
  unfold opened
  split
  · exact Access.has_nonPrivate m.access small single other
  · rfl

theorem stays_opened (ofInterface : Bool) (name : String) (m : Member) :
    (m.opened name).stays ofInterface = m.stays ofInterface := by
  have bridge : Access.has (m.opened name).access Access.bridgeFlag = _ :=
    m.has_opened name (by decide : 6 < 16) rfl (by decide)
  rw [stays, bridge, stays]

theorem has_abstract_opened (name : String) (m : Member) :
    Access.has (m.opened name).access Access.abstractFlag =
      Access.has m.access Access.abstractFlag :=
  m.has_opened name (by decide : 10 < 16) rfl (by decide)

theorem opened_opened (name : String) (m : Member) : (m.opened name).opened name = m.opened name := by
  unfold opened
  by_cases body : isLambdaBody name = true
  · simp [body, Access.nonPrivate_eq_self (Access.has_private_nonPrivate m.access)]
  · simp [body]

theorem isReported_opened (ofInterface : Bool) (name : String) (m : Member) :
    (m.opened name).isReported ofInterface = m.isReported ofInterface := by
  rw [isReported, has_abstract_opened, isReported]

/-- What a method keeps: all but the private bit of its flags, which is cleared if the name of
the method is that of a lambda body. -/
structure KeptAs (pool : Pool) (m m' : Member) : Prop where
  name : m'.name = m.name
  descriptor : m'.descriptor = m.descriptor
  attributes : m'.attributes = m.attributes
  access : ∃ text, m.nameText pool = .ok text ∧
    (NamesLambdaBody text → m'.access = m.access &&& 0xFFFD) ∧
    (¬ NamesLambdaBody text → m'.access = m.access)

theorem keptAs_opened {pool : Pool} {name : String} {m : Member}
    (named : m.nameText pool = .ok name) : m.KeptAs pool (m.opened name) where
  name := rfl
  descriptor := rfl
  attributes := rfl
  access := by
    refine ⟨name, named, fun body => ?_, fun other => ?_⟩
    · exact if_pos (isLambdaBody_iff.mpr body)
    · exact if_neg fun body => other (isLambdaBody_iff.mp body)

theorem reports_widen (owner name : String) (m : Member) :
    (m.widen owner name).Reports fun m' found => m' = m.opened name ∧ found = [] := by
  refine (((reports_write _).bind fun _ => reports_pure _).ite (reports_pure m)).congr
    fun m' found => ?_
  unfold opened
  by_cases body : isLambdaBody name = true
  · by_cases closed : Access.has m.access Access.privateFlag = true
    · simp [body, closed, Note.diagnostic?]
    · rw [Bool.not_eq_true] at closed
      simp [body, closed, Access.nonPrivate_eq_self closed]
  · simp [body]

theorem reports_reportBody (pool : Pool) (owner name : String) (m : Member) :
    (m.reportBody pool owner name).Reports fun _ found =>
      Access.has m.access Access.abstractFlag = true ∧ found = [] ∨
        Access.has m.access Access.abstractFlag = false ∧
          ∃ descriptor, m.descriptorText pool = .ok descriptor ∧
            found = [.nonAbstractInterfaceMethod owner (name ++ descriptor)] := by
  refine ((reports_pure ()).ite ((reports_check (m.descriptorText pool)).bind fun descriptor =>
    reports_write _)).congr fun _ found => ?_
  simp [Note.diagnostic?]

end Member

namespace ClassFile

/-- What becomes of a method: it goes as a bridge, or it stays opened. A method of an
interface that is not abstract needs a readable descriptor. -/
def Retained (c : ClassFile) (m : Member) (result : Option Member) : Prop :=
  ∃ name, m.nameText c.pool = .ok name ∧
    (m.stays c.isInterface = false ∧ result = none ∨
      m.stays c.isInterface = true ∧ result = some (m.opened name) ∧
        (c.isInterface = true → Access.has m.access Access.abstractFlag = true ∨
          ∃ descriptor, m.descriptorText c.pool = .ok descriptor))

/-- What is reported of a method: a body that stays in an interface, by name and descriptor. -/
def Finds (c : ClassFile) (owner : String) (m : Member) (found : List Diagnostic) : Prop :=
  m.stays c.isInterface = true ∧ m.isReported c.isInterface = true ∧
      (∃ signature, m.signature c.pool = .ok signature ∧
        found = [.nonAbstractInterfaceMethod owner signature]) ∨
    ¬ (m.stays c.isInterface = true ∧ m.isReported c.isInterface = true) ∧ found = []

theorem reports_retain (c : ClassFile) (owner : String) (m : Member) :
    (c.retain owner m).Reports fun result found => c.Retained m result ∧ c.Finds owner m found := by
  unfold ClassFile.retain
  refine (Reports.ite ((reports_check (m.nameText c.pool)).bind fun name =>
    (((reports_write _).bind fun _ => reports_pure none).ite
      ((m.reports_reportBody c.pool owner name).bind fun _ =>
        (m.reports_widen owner name).bind fun m' => reports_pure (some m'))))
    ((reports_check (m.nameText c.pool)).bind fun name =>
      (m.reports_widen owner name).bind fun m' => reports_pure (some m'))).congr
    fun result found => ?_
  unfold Retained Finds Member.isReported Member.stays
  simp only [Member.signature_eq_ok]
  cases named : m.nameText c.pool with
  | error e => simp
  | ok name =>
      by_cases interface : c.isInterface = true
      · by_cases bridge : Access.has m.access Access.bridgeFlag = true
        · simp [interface, bridge, Note.diagnostic?]
        · by_cases abstract' : Access.has m.access Access.abstractFlag = true
          · simp [interface, bridge, abstract']
          · cases described : m.descriptorText c.pool with
            | error e => simp [interface, bridge, abstract']
            | ok descriptor => simp [interface, bridge, abstract']
      · simp [interface]

/-- Something becomes of a method if its name is readable and so is the descriptor of one that
is reported. -/
theorem exists_retained_iff {c : ClassFile} {m : Member} :
    (∃ result, c.Retained m result) ↔ (∃ name, m.nameText c.pool = .ok name) ∧
      (m.stays c.isInterface = true → m.isReported c.isInterface = true →
        ∃ descriptor, m.descriptorText c.pool = .ok descriptor) := by
  have split : m.isReported c.isInterface = true ↔
      c.isInterface = true ∧ ¬ Access.has m.access Access.abstractFlag = true := by
    simp [Member.isReported]
  constructor
  · intro retained
    obtain ⟨result, name, named, outcome⟩ := retained
    refine ⟨⟨name, named⟩, fun stays reported => ?_⟩
    obtain ⟨interface, body⟩ := split.mp reported
    rcases outcome with ⟨goes, -⟩ | ⟨-, -, described⟩
    · simp [stays] at goes
    · exact (described interface).resolve_left body
  · intro readable
    obtain ⟨⟨name, named⟩, described⟩ := readable
    by_cases stays : m.stays c.isInterface = true
    · refine ⟨some (m.opened name), name, named, .inr ⟨stays, rfl, fun interface => ?_⟩⟩
      by_cases body : Access.has m.access Access.abstractFlag = true
      · exact .inl body
      · exact .inr (described stays (split.mpr ⟨interface, body⟩))
    · exact ⟨none, name, named, .inl ⟨by simpa using stays, rfl⟩⟩

theorem gives_retain (c : ClassFile) (owner : String) (m : Member) :
    (c.retain owner m).Gives (c.Retained m) := by
  apply (c.reports_retain owner m).gives.congr
  intro result
  constructor
  · intro reported
    obtain ⟨found, retained, -⟩ := reported
    exact retained
  · intro retained
    obtain ⟨⟨name, named⟩, described⟩ := exists_retained_iff.mp ⟨result, retained⟩
    by_cases finds : m.stays c.isInterface = true ∧ m.isReported c.isInterface = true
    · obtain ⟨stays, reported⟩ := finds
      obtain ⟨descriptor, described⟩ := described stays reported
      have signed := Member.signature_eq_ok.mpr ⟨name, descriptor, named, described, rfl⟩
      exact ⟨_, retained, .inl ⟨stays, reported, _, signed, rfl⟩⟩
    · exact ⟨[], retained, .inr ⟨finds, rfl⟩⟩

/-- The methods that stay, as they were. -/
def staying (c : ClassFile) : List Member :=
  c.methods.filter (Member.stays c.isInterface)

/-- The methods that stay, as they stay. -/
def RetainsMethods (c : ClassFile) (methods : List Member) : Prop :=
  ∃ results, List.Forall₂ c.Retained c.methods results ∧ methods = results.reduceOption

theorem gives_retainMethods (c : ClassFile) (owner : String) :
    (c.retainMethods owner).Gives fun c' =>
      ∃ methods, c.RetainsMethods methods ∧ c' = { c with methods := methods } := by
  refine ((Gives.filterMapM (c.gives_retain owner) c.methods).bind fun methods =>
    gives_pure _).congr fun c' => ?_
  rfl

/-- The methods that stay are opened one by one, in their order. -/
theorem RetainsMethods.opened {c : ClassFile} {methods : List Member}
    (retains : c.RetainsMethods methods) :
    List.Forall₂ (fun m m' => ∃ name, m.nameText c.pool = .ok name ∧ m' = m.opened name)
      c.staying methods := by
  obtain ⟨results, pairs, rfl⟩ := retains
  unfold staying
  generalize c.methods = all at pairs ⊢
  induction pairs with
  | nil => exact .nil
  | @cons m result rest results first _ ih =>
      obtain ⟨name, named, ⟨goes, rfl⟩ | ⟨stays, rfl, -⟩⟩ := first
      · rw [List.filter_cons_of_neg (by rw [goes]; decide), List.reduceOption_cons_of_none]
        exact ih
      · rw [List.filter_cons_of_pos stays, List.reduceOption_cons_of_some]
        exact .cons ⟨name, named, rfl⟩ ih

/-- The methods that were found to have a body in an interface are reported one by one, in their
order. -/
theorem reports_retainMethods (c : ClassFile) (owner : String) :
    (c.retainMethods owner).Reports fun c' found =>
      ∃ rounds : List (Option Member × List Diagnostic),
        List.Forall₂ (fun m round => c.Retained m round.1 ∧ c.Finds owner m round.2)
          c.methods rounds ∧
        c' = { c with methods := (rounds.map Prod.fst).reduceOption } ∧
        found = rounds.flatMap Prod.snd := by
  refine ((Reports.filterMapM (c.reports_retain owner) c.methods).bind fun methods =>
    reports_pure _).congr fun c' found => ?_
  constructor
  · intro reported
    obtain ⟨methods, early, late, ⟨rounds, each, rfl, rfl⟩, ⟨rfl, rfl⟩, rfl⟩ := reported
    exact ⟨rounds, each, rfl, List.append_nil _⟩
  · intro reported
    obtain ⟨rounds, each, rfl, rfl⟩ := reported
    exact ⟨_, _, [], ⟨rounds, each, rfl, rfl⟩, ⟨rfl, rfl⟩, (List.append_nil _).symm⟩

/-- The rounds report, of the methods that stay, those with a body in an interface. -/
theorem reported_of_rounds {c : ClassFile} {owner : String} {methods : List Member}
    {rounds : List (Option Member × List Diagnostic)}
    (each : List.Forall₂ (fun m round => c.Retained m round.1 ∧ c.Finds owner m round.2)
      methods rounds) :
    List.Forall₂ (fun m d => ∃ signature, m.signature c.pool = .ok signature ∧
        d = .nonAbstractInterfaceMethod owner signature)
      ((rounds.map Prod.fst).reduceOption.filter (Member.isReported c.isInterface))
      (rounds.flatMap Prod.snd) := by
  induction each with
  | nil => exact .nil
  | @cons m round rest rounds first _ ih =>
      obtain ⟨⟨name, named, becomes⟩, finds⟩ := first
      rw [List.map_cons, List.flatMap_cons]
      rcases becomes with ⟨goes, gone⟩ | ⟨stays, kept, -⟩
      · have silent : round.2 = [] := by simpa [Finds, goes] using finds
        rw [gone, silent, List.reduceOption_cons_of_none]
        exact ih
      · rw [kept, List.reduceOption_cons_of_some]
        by_cases reported : m.isReported c.isInterface = true
        · obtain ⟨signature, signed, found⟩ : ∃ signature, m.signature c.pool = .ok signature ∧
              round.2 = [.nonAbstractInterfaceMethod owner signature] := by
            simpa [Finds, stays, reported] using finds
          rw [List.filter_cons_of_pos ((m.isReported_opened _ name).trans reported), found]
          exact .cons ⟨signature, signed, rfl⟩ ih
        · have silent : round.2 = [] := by simpa [Finds, reported] using finds
          rw [List.filter_cons_of_neg (by rwa [m.isReported_opened]), silent]
          exact ih

/-- A method that has stayed once stays as it is. -/
theorem Retained.again {c : ClassFile} {m m' : Member} (retained : c.Retained m (some m')) :
    c.Retained m' (some m') := by
  obtain ⟨name, named, ⟨-, gone⟩ | ⟨stays, same, described⟩⟩ := retained
  · cases gone
  · cases same
    refine ⟨name, named, .inr ⟨(m.stays_opened _ name).trans stays, ?_, ?_⟩⟩
    · rw [m.opened_opened]
    · rw [m.has_abstract_opened]
      exact described

/-- Methods that have stayed once all stay as they are. -/
theorem RetainsMethods.again {c : ClassFile} {methods : List Member}
    (retains : c.RetainsMethods methods) :
    ({ c with methods := methods } : ClassFile).RetainsMethods methods := by
  obtain ⟨results, pairs, rfl⟩ := retains
  refine ⟨results.reduceOption.map some, ?_, by simp [List.reduceOption]⟩
  show List.Forall₂ c.Retained results.reduceOption (results.reduceOption.map some)
  generalize c.methods = all at pairs
  induction pairs with
  | nil => exact .nil
  | @cons m result rest results first _ ih =>
      cases result with
      | none => exact ih
      | some m' => exact .cons first.again ih

/-- Methods that have been opened, and whose descriptors are readable, all stay as they
are. -/
theorem retainsMethods_self {c : ClassFile}
    (settled : ∀ m ∈ c.methods, m.stays c.isInterface = true ∧
      (∃ name, m.nameText c.pool = .ok name ∧ m.opened name = m) ∧
      ∃ descriptor, m.descriptorText c.pool = .ok descriptor) :
    c.RetainsMethods c.methods := by
  refine ⟨c.methods.map some, ?_, by simp [List.reduceOption]⟩
  rw [List.forall₂_map_right_iff, List.forall₂_same]
  intro m member
  obtain ⟨stays, ⟨name, named, same⟩, described⟩ := settled m member
  exact ⟨name, named, .inr ⟨stays, by rw [same], fun _ => .inr described⟩⟩

/-- The methods of a class can be filtered if their names are readable, and the descriptors of
those that are reported. That touches nothing else about the class. The methods that remain are
those that were there, in their order, without the bridges of an interface, and each keeps all
but a private flag on a lambda body. Reported are, in their order, the methods of an interface
that remain with a body. Filtering once more changes nothing. -/
theorem retainMethods_follows_policy {c : ClassFile} {owner : String} (named : c.name = .ok owner)
    (notes : Array Note) :
    ((∃ c' notes', (c.retainMethods owner).run notes = (.ok c', notes')) ↔
      ∀ m ∈ c.methods, (∃ name, m.nameText c.pool = .ok name) ∧
        (m.stays c.isInterface = true → m.isReported c.isInterface = true →
          ∃ descriptor, m.descriptorText c.pool = .ok descriptor)) ∧
    ∀ c' notes', (c.retainMethods owner).run notes = (.ok c', notes') →
      c' = { c with methods := c'.methods } ∧
      List.Forall₂ (Member.KeptAs c.pool)
        (c.methods.filter fun m => !(c.isInterface && Access.has m.access Access.bridgeFlag))
        c'.methods ∧
      (∃ found, reported notes' = reported notes ++ found ∧
        List.Forall₂ (fun m d => ∃ name signature, c.name = .ok name ∧
            m.signature c.pool = .ok signature ∧ d = .nonAbstractInterfaceMethod name signature)
          (c'.methods.filter fun m => c.isInterface && !Access.has m.access Access.abstractFlag)
          found) ∧
      ∀ before, ∃ after, (c'.retainMethods owner).run before = (.ok c', after) := by
  have gives := c.gives_retainMethods owner
  refine ⟨?_, fun c' notes' ran => ?_⟩
  · simp only [← exists_retained_iff, ← exists_rounds_iff]
    constructor
    · intro succeeds
      obtain ⟨c', notes', ran⟩ := succeeds
      obtain ⟨methods, ⟨results, pairs, -⟩, -⟩ := gives.of_run ran
      exact ⟨results, pairs⟩
    · intro readable
      obtain ⟨results, pairs⟩ := readable
      exact ⟨_, gives.run ⟨_, ⟨results, pairs, rfl⟩, rfl⟩ notes⟩
  obtain ⟨methods, retains, rfl⟩ := gives.of_run ran
  refine ⟨rfl, retains.opened.imp ?_, ?_, ?_⟩
  · intro m m' opened
    obtain ⟨name, text, rfl⟩ := opened
    exact Member.keptAs_opened text
  · obtain ⟨found, added, rounds, each, same, rfl⟩ := (c.reports_retainMethods owner).of_run ran
    refine ⟨_, added, ?_⟩
    rw [same]
    refine (reported_of_rounds each).imp fun m d found => ?_
    obtain ⟨signature, signed, rfl⟩ := found
    exact ⟨owner, signature, named, signed, rfl⟩
  · intro before
    exact (gives_retainMethods _ owner).run ⟨methods, retains.again, rfl⟩ before

/-- An interface with a bridge, an abstract method, a method with a body, and the body of a
lambda, which is private and has an undeclared bit. -/
def furnished : ClassFile :=
  { version := ⟨52, 0⟩
    pool := ⟨#[some (.utf8 (Modified.encode "List")), some (.classRef 1),
      some (.utf8 (Modified.encode "size")), some (.utf8 (Modified.encode "()I")),
      some (.utf8 (Modified.encode "lambda$size$0"))]⟩
    access := 0x0601
    thisClass := 2
    superClass := 0
    interfaces := []
    fields := []
    methods := [⟨0x1041, 3, 4, []⟩, ⟨0x0401, 3, 4, []⟩, ⟨0x0001, 3, 4, []⟩, ⟨0x900A, 5, 4, []⟩]
    attributes := [] }

theorem retainMethods_follows_policy_furnished :
    let methods : List Member := [⟨0x0401, 3, 4, []⟩, ⟨0x0001, 3, 4, []⟩, ⟨0x9008, 5, 4, []⟩]
    let notes : Array Note := #[
      .event ⟨.debug, "dropping bridge method on interface", [("class", "List"), ("method", "size")]⟩,
      .finding (.nonAbstractInterfaceMethod "List" "size()I"),
      .finding (.nonAbstractInterfaceMethod "List" "lambda$size$0()I"),
      .event ⟨.debug, "widening lambda implementation method",
        [("class", "List"), ("method", "lambda$size$0")]⟩]
    furnished.name = .ok "List" ∧
      (furnished.retainMethods "List").run #[] = (.ok { furnished with methods := methods }, notes) ∧
      List.Forall₂ (Member.KeptAs furnished.pool) (furnished.methods.drop 1) methods ∧
      ∀ before, ∃ after, (ClassFile.retainMethods "List" { furnished with methods := methods }).run
        before = (.ok { furnished with methods := methods }, after) := by
  intro methods notes
  have named : furnished.name = .ok "List" := by decide +kernel
  have ran : (furnished.retainMethods "List").run #[] =
      (.ok { furnished with methods := methods }, notes) :=
    Prod.ext (by decide +kernel) (by decide +kernel)
  obtain ⟨-, kept, -, again⟩ := (retainMethods_follows_policy named #[]).2 _ _ ran
  exact ⟨named, ran, kept, again⟩

end ClassFile

end Downlevel
