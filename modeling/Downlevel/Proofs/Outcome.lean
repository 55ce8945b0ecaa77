/-
# Downlevel.Proofs.Outcome — the stages of lowering a class

`Stages` holds what a class goes through: the class that is read, the methods that stay,
what they become, where the work on them ends, and the code that is left. `Stages.Reached`
says what it takes to get there. A class is lowered exactly if there are stages that are
reached, and the outcome is read off them (`lower_eq_ok`).

No stage depends on the target: it only decides what is written at the end
(`Stages.output`).

For a class with a single method, all but the work on its body can be computed
(`Stages.Single`).
-/
import Mathlib.Tactic.MkIffOfInductiveProp
import Downlevel.Outcome
import Downlevel.Proofs.Bootstrap
import Downlevel.Proofs.Retention
import Downlevel.Proofs.Rewriting

namespace Downlevel

set_option autoImplicit false

open Sequencing Noted

variable {ω : Type}

/-! ## Preparing -/

theorem ClassFile.gives_clamp (c : ClassFile) (owner : String) (target : Version) :
    (c.clamp owner target).Gives (· = c.atVersion (c.version.earlier target)) := by
  unfold ClassFile.clamp
  refine (Gives.ite ((gives_write _).bind fun _ => gives_pure _) (gives_pure _)).congr fun c' => ?_
  by_cases later : target.rank < c.version.rank
  · simp [later, ClassFile.atVersion]
  · simp [later, ClassFile.atVersion]

theorem ClassFile.retainsMethods_atVersion {c : ClassFile} {version : Version}
    {methods : List Member} :
    (c.atVersion version).RetainsMethods methods ↔ c.RetainsMethods methods :=
  Iff.rfl

/-- What is known of a class that was prepared. -/
theorem gives_prepare (target : Version) (bytes : Bytes) :
    (prepare target bytes).Gives fun p => ∃ c owner methods table,
      ClassFile.parse bytes = .ok c ∧ c.name = .ok owner ∧ c.RetainsMethods methods ∧
      c.bootstrapMethods = .ok table ∧
      p = ⟨owner, table, { c.atVersion (c.version.earlier target) with methods := methods }⟩ := by
  have table (c : ClassFile) (version : Version) (methods : List Member) :
      ({ c.atVersion version with methods := methods } : ClassFile).bootstrapMethods =
        c.bootstrapMethods := bootstrapMethods_congr rfl rfl
  unfold prepare
  refine ((gives_check (ClassFile.parse bytes)).bind fun c => (gives_check c.name).bind fun owner =>
    (c.gives_clamp owner target).bind fun clamped => (clamped.gives_retainMethods owner).bind
      fun retained => (gives_check retained.bootstrapMethods).bind fun table =>
        gives_pure (Prepared.mk owner table retained)).congr fun p => ?_
  constructor
  · rintro ⟨c, parsed, owner, named, _, rfl, _, ⟨methods, retains, rfl⟩, entries, found, rfl⟩
    rw [table] at found
    exact ⟨c, owner, methods, entries, parsed, named,
      ClassFile.retainsMethods_atVersion.mp retains, found, rfl⟩
  · rintro ⟨c, owner, methods, entries, parsed, named, retains, found, rfl⟩
    rw [← table c (c.version.earlier target) methods] at found
    exact ⟨c, parsed, owner, named, _, rfl, _,
      ⟨methods, ClassFile.retainsMethods_atVersion.mpr retains, rfl⟩, entries, found, rfl⟩

/-! ## Stages -/

/-- What a class goes through on its way down. -/
structure Stages (ω : Type) where
  /-- The class as it is read. -/
  input : ClassFile
  owner : String
  table : List BootstrapMethod
  /-- The methods that stay. -/
  methods : List Member
  /-- The same methods with their call sites replaced. -/
  replaced : List Member
  /-- Where the work on the call sites ends. -/
  ended : Standing ω
  /-- The code of the replaced methods. -/
  code : List Placed

namespace Stages

/-- The class with its call sites replaced. -/
def untidied (stages : Stages ω) : ClassFile :=
  { stages.input with methods := stages.replaced, pool := stages.ended.pool }

/-- The class that is written. -/
def output (stages : Stages ω) (target : Version) : ClassFile :=
  (stages.untidied.atVersion (stages.input.version.earlier target)).tidied stages.code

/-- Lowering the class gets through these stages. -/
structure Reached (around : Surroundings ω) (bytes : Bytes) (numbering : Numbering) (world : ω)
    (stages : Stages ω) : Prop where
  parsed : ClassFile.parse bytes = .ok stages.input
  named : stages.input.name = .ok stages.owner
  retained : stages.input.RetainsMethods stages.methods
  bootstrap : stages.input.bootstrapMethods = .ok stages.table
  rounds : Rounds (Member.Substitutes around stages.owner stages.table)
    ⟨⟨none, numbering, world⟩, stages.input.pool⟩ stages.methods stages.replaced stages.ended
  tidies : stages.untidied.Tidies stages.code

end Stages

section Lower

variable {around : Surroundings ω} {target : Version} {bytes out : Bytes}
  {numbering numbering' : Numbering} {world world' : ω}

/-- The stages after preparing, for a class that was prepared. -/
theorem lower_of_prepared {c : ClassFile} {owner : String} {table : List BootstrapMethod}
    {version : Version} {methods : List Member} {taken : Array Note}
    (prepared : (prepare target bytes).run #[] =
      (.ok ⟨owner, table, { c.atVersion version with methods := methods }⟩, taken)) :
    (∃ notes, lower around target bytes numbering world = ⟨.ok out, notes, numbering', world'⟩) ↔
      ∃ replaced ended code, Rounds (Member.Substitutes around owner table)
          ⟨⟨none, numbering, world⟩, c.pool⟩ methods replaced ended ∧
        ClassFile.Tidies { c with methods := replaced, pool := ended.pool } code ∧
        out = ((ClassFile.atVersion { c with methods := replaced, pool := ended.pool }
          version).tidied code).write ∧
        ended.inquiry.numbering = numbering' ∧ ended.inquiry.world = world' := by
  have substituted := Does.mapM (Member.does_substitute around owner table) methods
  unfold lower
  simp only [prepared]
  constructor
  · rintro ⟨notes, lowered⟩
    split at lowered
    · cases lowered
    · rename_i replaced work substituting
      split at lowered
      · cases lowered
      · rename_i tidying
        obtain ⟨code, tidies, rfl⟩ := (ClassFile.gives_tidyBootstrap
          (ClassFile.atVersion { c with methods := replaced, pool := work.pool } version)).of_run
          tidying
        cases lowered
        exact ⟨replaced, work.standing, code, substituted.of_run substituting,
          ClassFile.tidies_atVersion.mp tidies, rfl, rfl, rfl⟩
  · rintro ⟨replaced, ended, code, rounds, tidies, rfl, rfl, rfl⟩
    obtain ⟨work, substituting, rfl⟩ := (substituted
      ⟨world, numbering, taken, none, c.pool⟩ replaced ended).mpr rounds
    obtain ⟨notes, tidying⟩ := (ClassFile.gives_tidyBootstrap
      (ClassFile.atVersion { c with methods := replaced, pool := work.pool } version)).run
      ⟨code, ClassFile.tidies_atVersion.mpr tidies, rfl⟩ work.notes
    refine ⟨notes, ?_⟩
    simp only [ClassFile.atVersion] at tidying ⊢
    simp only [substituting, tidying]
    rfl

/-- A class is lowered exactly along stages that are reached. -/
theorem lower_eq_ok :
    (∃ notes, lower around target bytes numbering world = ⟨.ok out, notes, numbering', world'⟩) ↔
      ∃ stages : Stages ω, stages.Reached around bytes numbering world ∧
        out = (stages.output target).write ∧ stages.ended.inquiry.numbering = numbering' ∧
        stages.ended.inquiry.world = world' := by
  constructor
  · rintro ⟨notes, lowered⟩
    cases ran : (prepare target bytes).run #[] with
    | mk result taken =>
        cases result with
        | error e =>
            unfold lower at lowered
            rw [ran] at lowered
            cases lowered
        | ok p =>
            obtain ⟨c, owner, methods, table, parsed, named, retains, found, rfl⟩ :=
              (gives_prepare target bytes).of_run ran
            obtain ⟨replaced, ended, code, rounds, tidies, written, numbered, left⟩ :=
              (lower_of_prepared ran).mp ⟨notes, lowered⟩
            exact ⟨⟨c, owner, table, methods, replaced, ended, code⟩,
              ⟨parsed, named, retains, found, rounds, tidies⟩, written, numbered, left⟩
  · rintro ⟨stages, reached, written, numbered, left⟩
    obtain ⟨taken, ran⟩ := (gives_prepare target bytes).run
      ⟨stages.input, stages.owner, stages.methods, stages.table, reached.parsed, reached.named,
        reached.retained, reached.bootstrap, rfl⟩ #[]
    exact (lower_of_prepared ran).mpr ⟨stages.replaced, stages.ended, stages.code, reached.rounds,
      reached.tidies, written, numbered, left⟩

theorem stages_of_lower
    (lowered : (lower around target bytes numbering world).result = .ok out) :
    ∃ stages : Stages ω, stages.Reached around bytes numbering world ∧
      out = (stages.output target).write ∧
      stages.ended.inquiry.numbering = (lower around target bytes numbering world).numbering ∧
      stages.ended.inquiry.world = (lower around target bytes numbering world).world :=
  lower_eq_ok.mp ⟨(lower around target bytes numbering world).notes, by rw [← lowered]⟩

/-- Stages that are reached lead to what they say is written. -/
theorem Stages.Reached.lowered {stages : Stages ω}
    (reached : stages.Reached around bytes numbering world) (target : Version) :
    (lower around target bytes numbering world).result = .ok (stages.output target).write := by
  obtain ⟨notes, ran⟩ := lower_eq_ok.mpr ⟨stages, reached, rfl, rfl, rfl⟩
  rw [ran]

end Lower

/-! ## What is written -/

namespace Stages

variable {around : Surroundings ω} {bytes : Bytes} {numbering : Numbering} {world : ω}
  {stages : Stages ω}

theorem blanked_output (stages : Stages ω) (target : Version) :
    Pool.Blanked stages.ended.pool (stages.output target).pool :=
  (stages.untidied.atVersion (stages.input.version.earlier target)).tidied_blanked stages.code

theorem output_sameFrame (stages : Stages ω) (target : Version) :
    stages.input.SameFrame (stages.output target) := by
  have same := stages.untidied.tidied_atVersion_sameFrame
    (stages.input.version.earlier target) stages.code
  exact ⟨same.access, same.thisClass, same.superClass, same.interfaces, same.fields⟩

theorem output_version (stages : Stages ω) (target : Version) :
    (stages.output target).version = stages.input.version.earlier target :=
  stages.untidied.tidied_atVersion_version _ stages.code

theorem output_methods (stages : Stages ω) (target : Version) :
    (stages.output target).methods = stages.replaced :=
  stages.untidied.tidied_atVersion_methods _ stages.code

/-- The attributes of the class stay, but for bootstrap tables that nothing needs. -/
theorem output_attributes (stages : Stages ω) (target : Version) :
    stages.untidied.needsBootstrap stages.code = true ∧
        (stages.output target).attributes = stages.input.attributes ∨
      stages.untidied.needsBootstrap stages.code = false ∧
        (stages.output target).attributes =
          Attribute.withoutBootstrap stages.ended.pool stages.input.attributes := by
  have same := stages.untidied.needsBootstrap_atVersion (stages.input.version.earlier target)
    stages.code
  unfold output
  cases needed : stages.untidied.needsBootstrap stages.code with
  | true =>
      rw [ClassFile.tidied_of_needed (same.trans needed), ClassFile.atVersion_attributes]
      exact .inl ⟨rfl, rfl⟩
  | false =>
      rw [ClassFile.tidied_attributes (same.trans needed), ClassFile.atVersion_attributes,
        ClassFile.atVersion_pool]
      exact .inr ⟨rfl, rfl⟩

/-- With dynamic linkage, no constant is blanked. -/
theorem output_pool_of_linkage {stages : Stages ω} {target : Version}
    (linkage : (stages.input.version.earlier target).dynamicLinkage = true) :
    (stages.output target).pool = stages.ended.pool :=
  stages.untidied.tidied_atVersion_pool linkage stages.code

namespace Reached

variable (reached : stages.Reached around bytes numbering world)
include reached

/-- The methods that stay have the attributes of methods that were read. -/
theorem info_length_le {m : Member} (stays : m ∈ stages.methods) {a : Attribute}
    (held : a ∈ m.attributes) : a.info.length ≤ bytes.length := by
  obtain ⟨m, member, name, -, rfl⟩ := round_of_mem reached.retained.opened stays
  rw [← ClassFile.length_write_of_parse reached.parsed]
  exact ClassFile.info_length_le_write (List.mem_of_mem_filter member) held

/-- The names of attributes that went can be read in what is written. -/
theorem attributes_output (target : Version) :
    (stages.output target).attributes = stages.input.attributes ∨
      (stages.output target).attributes =
        Attribute.withoutBootstrap (stages.output target).pool stages.input.attributes := by
  rcases stages.output_attributes target with ⟨-, same⟩ | ⟨unneeded, same⟩
  · exact .inl same
  · refine .inr (same.trans (List.filter_congr fun a member => ?_))
    rw [Attribute.isBootstrap_of_retains (stages.blanked_output target).retains]
    exact reached.tidies.2 unneeded a member

theorem fits_methods : stages.methods.length < 65536 ∧ ∀ m ∈ stages.methods, m.Fits := by
  have fits := (ClassFile.fits_of_parse reached.parsed).methods
  refine ⟨?_, fun m stays => ?_⟩
  · rw [← reached.retained.opened.length_eq]
    exact Nat.lt_of_le_of_lt (List.length_filter_le _ _) fits.1
  · obtain ⟨m, member, name, -, rfl⟩ := round_of_mem reached.retained.opened stays
    exact fits.2 m (List.mem_of_mem_filter member)

variable (short : bytes.length < 1073741824)
include short

/-- The work edits the pool, and all of it can be told from the pool it ends with and the
one that is written. -/
theorem settles (target : Version) :
    Pool.Edited stages.input.pool stages.ended.pool ∧
      Rounds (fun q m m' q' => (∃ text, m.signature stages.ended.pool = .ok text) ∧
        Member.Changes around stages.owner stages.table stages.ended.pool
          (stages.output target).pool q m m' q')
        ⟨none, numbering, world⟩ stages.methods stages.replaced stages.ended.inquiry := by
  obtain ⟨edited, told⟩ := settle_rounds (T := fun grown q m m' q' =>
      (∃ text, m.signature grown = .ok text) ∧ ∀ output, Pool.Retains grown output →
        Member.Changes around stages.owner stages.table grown output q m m' q') reached.rounds
    (ClassFile.fits_of_parse reached.parsed).pool fun m stays t m' t' fits substitutes =>
      substitutes.settles fits fun a held =>
        Nat.lt_of_le_of_lt (reached.info_length_le stays held) short
  refine ⟨edited, (told stages.ended.pool fun _ _ found => found).imp ?_⟩
  rintro q m m' q' ⟨signed, changes⟩
  exact ⟨signed, changes _ (stages.blanked_output target).retains⟩

/-- What is written is within the limits of the format. -/
theorem output_fits (target : Version) : (stages.output target).Fits := by
  obtain ⟨edited, rounds⟩ := reached.settles short target
  have fits := ClassFile.fits_of_parse reached.parsed
  have pairs : List.Forall₂ (fun m m' => m.Fits → m'.Fits) stages.methods stages.replaced :=
    rounds.forall₂ fun q m m' q' changed => changed.2.fits
  refine fits.of_sameFrame (stages.output_sameFrame target)
    ((stages.blanked_output target).fits edited.fits) ⟨?_, fun m' member => ?_⟩ ?_
  · rw [stages.output_methods, ← pairs.length_eq]
    exact reached.fits_methods.1
  · have along := reached.fits_methods.2
    rw [stages.output_methods] at member
    obtain ⟨m, stays, kept⟩ := round_of_mem pairs member
    exact kept (along m stays)
  · rcases stages.output_attributes target with ⟨-, same⟩ | ⟨-, same⟩
    · rw [same]
      exact fits.attributes
    · rw [same]
      exact Attribute.TableFits.filter fits.attributes _

/-- What is written can be read. -/
theorem parse_output (target : Version) :
    ClassFile.parse (stages.output target).write = .ok (stages.output target) :=
  ClassFile.parse_write (reached.output_fits short target)

end Reached

/-! ## A class with a single method -/

/-- The class has one method, which stays as it is and has one attribute. That attribute holds the
body, and its contents become `info`. -/
@[mk_iff]
structure Single (bytes : Bytes) (m : Member) (a : Attribute) (info : Bytes) (stages : Stages ω) :
    Prop where
  parsed : ClassFile.parse bytes = .ok stages.input
  named : stages.input.name = .ok stages.owner
  bootstrap : stages.input.bootstrapMethods = .ok stages.table
  alone : stages.input.methods = [m]
  same : stages.methods = [m]
  replaced : stages.replaced = [{ m with attributes := [{ a with info := info }] }]
  stays : m.stays stages.input.isInterface = true
  opened : (do return m.opened (← m.nameText stages.input.pool)) = .ok m
  described : (m.descriptorText stages.input.pool).isOk = true
  held : m.attributes = [a]
  positioned : m.bodyPosition stages.input.pool = .ok (some 0)
  decoded : stages.untidied.instructions = .ok stages.code
  legible : ∀ b ∈ stages.input.attributes, (stages.ended.pool.utf8 b.name).isOk = true

instance (bytes : Bytes) (m : Member) (a : Attribute) (info : Bytes) (stages : Stages ω) :
    Decidable (stages.Single bytes m a info) :=
  decidable_of_iff' _ (single_iff bytes m a info stages)

namespace Single

variable {m : Member} {a : Attribute} {info : Bytes} (single : stages.Single bytes m a info)
include single

/-- The method has a name and a descriptor, and stays. -/
theorem settled : ∃ name descriptor, m.nameText stages.input.pool = .ok name ∧
    m.opened name = m ∧ m.descriptorText stages.input.pool = .ok descriptor := by
  obtain ⟨name, named, opened⟩ := bind_eq_ok.mp single.opened
  obtain ⟨descriptor, described⟩ := isOk_iff.mp single.described
  exact ⟨name, descriptor, named, pure_eq_ok.mp opened, described⟩

theorem retained : stages.input.RetainsMethods stages.methods := by
  obtain ⟨name, descriptor, named, opened, described⟩ := single.settled
  rw [single.same, ← single.alone]
  refine ClassFile.retainsMethods_self ?_
  rw [single.alone, List.forall_mem_singleton]
  exact ⟨single.stays, ⟨name, named, opened⟩, descriptor, described⟩

theorem tidies : stages.untidied.Tidies stages.code :=
  ⟨single.decoded, fun _ b member => isOk_iff.mp (single.legible b member)⟩

/-- What is left is the work on the body. -/
theorem reached (changes : Member.SubstitutesInfo around stages.owner stages.table
      ⟨⟨none, numbering, world⟩, stages.input.pool⟩ a.info info stages.ended) :
    stages.Reached around bytes numbering world := by
  refine ⟨single.parsed, single.named, single.retained, single.bootstrap, ?_, single.tidies⟩
  obtain ⟨name, descriptor, named, -, described⟩ := single.settled
  have signed := Member.signature_eq_ok.mpr ⟨name, descriptor, named, described, rfl⟩
  have only : m.attributes[0]? = some a := by rw [single.held]; rfl
  have method := Member.Substitutes.body (t := ⟨⟨none, numbering, world⟩, stages.input.pool⟩)
    signed single.positioned only changes
  rw [single.held, List.set_cons_zero] at method
  rw [single.same, single.replaced]
  exact .cons method (.nil _)

end Single

end Stages

/-! ## A class with a call site

A method makes a task, drops it and starts over. The stages of that class are written out;
being reached is checked step by step. -/

namespace Looping

def text (content : String) : Option Constant :=
  some (.utf8 (Modified.encode content))

def body : Body :=
  ⟨1, 0, [0xBA, 0, 15, 0, 0, 0x57, 0xA7, 0xFF, 0xFA], [], []⟩

def rebuilt : Body :=
  ⟨1, 0, [0xB8, 0, 20, 0x57, 0xA7, 0xFF, 0xFC], [], []⟩

def input : ClassFile :=
  { version := ⟨52, 0⟩
    pool := ⟨#[text "Loop", some (.classRef 1), text "run", text "()V", text "Code",
      text "BootstrapMethods", text metafactory, some (.classRef 7), text "metafactory",
      some (.nameAndType 9 4), some (.methodRef 8 10), some (.methodHandle 6 11),
      text "()LTask;", some (.nameAndType 3 13), some (.invokeDynamic 0 14)]⟩
    access := 0x20
    thisClass := 2
    superClass := 0
    interfaces := []
    fields := []
    methods := [⟨8, 3, 4, [⟨5, body.write⟩]⟩]
    attributes := [⟨6, [0, 1, 0, 12, 0, 0]⟩] }

/-- Surroundings that find every class and number the factories. -/
def surroundings : Surroundings Unit where
  resolve name world := (.ok ⟨name, .file ⟨[]⟩, [], 0⟩, [], world)
  nameFactory request numbering world :=
    let (factory, numbering) := Factory.nextFor request.owner.name request.site numbering
    (.ok factory, numbering, world)

def stages : Stages Unit :=
  { input := input
    owner := "Loop"
    table := [⟨12, []⟩]
    methods := input.methods
    replaced := [⟨8, 3, 4, [⟨5, rebuilt.write⟩]⟩]
    ended := ⟨⟨some ⟨"Loop", .file ⟨[]⟩, [], 0⟩, ⟨1⟩, ()⟩,
      ⟨input.pool.slots ++ #[text "Loop$$Lambda$1", some (.classRef 16), text factoryName,
        some (.nameAndType 18 13), some (.methodRef 17 19)]⟩⟩
    code := [⟨0, .call Opcode.invokeStatic 20⟩, ⟨3, .plain 0x57 []⟩, ⟨4, .branch 0xA7 0⟩] }

def begun : Standing Unit :=
  ⟨⟨none, .fresh, ()⟩, input.pool⟩

def code : List Placed :=
  [⟨0, .dynamicCall 15⟩, ⟨5, .plain 0x57 []⟩, ⟨6, .branch 0xA7 0⟩]

/-- The call site of the given name. -/
def site (name : String) : CallSite :=
  ⟨name, "()LTask;", ⟨.invokeStatic, ⟨metafactory, "metafactory", "()V", false⟩⟩, []⟩

theorem standsFor (owner name : String) :
    (Factory.mk owner factoryName "()LTask;").StandsFor (site name) := by
  have parsed : MethodDescriptor.parse? "()LTask;" =
      some ⟨[], some ⟨0, .object "Task".toList⟩⟩ := by decide +kernel
  refine ⟨_, parsed, ?_⟩
  simp only [Factory.fits, parsed]
  decide

theorem replaces : Rounds (Scope.Replaces surroundings "Loop" [⟨12, []⟩]) begun code
    [some 20, none, none] stages.ended := by
  have judged : judge [⟨12, []⟩] 15 input.pool = .ok (.lambda (site "run")) := by decide +kernel
  have asks : begun.inquiry.Asks surroundings "Loop" (site "run")
      ⟨"Loop$$Lambda$1", factoryName, "()LTask;"⟩ stages.ended.inquiry :=
    ⟨_, (), .inr ⟨rfl, [], rfl⟩, rfl, by decide +kernel⟩
  have interned : (Pool.internMethodRef "Loop$$Lambda$1" factoryName "()LTask;" false).run
      begun.pool = (.ok 20, stages.ended.pool) :=
    Prod.ext (by decide +kernel) (by decide +kernel)
  exact .cons (.lambda rfl judged asks (standsFor _ _) interned)
    (.cons (.other rfl) (.cons (.other rfl) (.nil _)))

theorem substitutesInfo : Member.SubstitutesInfo surroundings "Loop" [⟨12, []⟩] begun body.write
    rebuilt.write stages.ended := by
  let after : List Placed :=
    [⟨0, .call Opcode.invokeStatic 20⟩, ⟨5, .plain 0x57 []⟩, ⟨6, .branch 0xA7 0⟩]
  have parsed : Body.parse body.write = .ok body := by decide +kernel
  have decoded : decode body.code = .ok code := by decide +kernel
  have replaced : List.Forall₂ Placed.Replaced code after :=
    .cons (.call 0 15 20) (.cons (.kept _) (.cons (.kept _) .nil))
  have found : (layOut after body.code.length).find 0 = .ok 0 :=
    OffsetMap.find_eq_ok.mpr (((sends_layOut decoded replaced).1 0 0).mpr (by decide))
  have call : Placed.encode (layOut after body.code.length) 0 ⟨0, .call Opcode.invokeStatic 20⟩ =
      .ok [0xB8, 0, 20] := rfl
  have drop : Placed.encode (layOut after body.code.length) 3 ⟨5, .plain 0x57 []⟩ =
      .ok [0x57] := rfl
  have back : Placed.encode (layOut after body.code.length) 4 ⟨6, .branch 0xA7 0⟩ =
      .ok [0xA7, 0xFF, 0xFC] := by
    simp only [Placed.encode, Placed.near, Placed.distance, found]
    rfl
  have assembled : assemble after body.code.length =
      .ok (rebuilt.code, layOut after body.code.length) :=
    assemble_eq_ok.mpr ⟨rfl, .cons call (.cons drop (.cons back (.nil _)))⟩
  exact .rebuilt parsed decoded replaces rfl assembled rfl

theorem reached : stages.Reached surroundings input.write .fresh () := by
  have single : stages.Single input.write ⟨8, 3, 4, [⟨5, body.write⟩]⟩ ⟨5, body.write⟩
      rebuilt.write := by decide +kernel
  exact single.reached substitutesInfo

theorem short : input.write.length < 1073741824 := by decide +kernel

/-- The class is lowered to every version. -/
theorem lowered (target : Version) :
    (lower surroundings target input.write .fresh ()).result =
      .ok (stages.output target).write :=
  reached.lowered target

end Looping

end Downlevel
