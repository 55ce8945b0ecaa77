/-
# Downlevel.Proofs.ClassPath.History — lookups in the course of time

A class path is asked for classes, gets more entries, and the files change under it, in any
order (`Action`). What it answers at the end of such a history follows from the rule about a single
lookup (`Searches`) and from what the lookups before it leave behind:

* a class that was found stays found, as the same handle (`Scene.Found`);
* a lookup that gave no class leaves the archives it consulted knowing where the bytes of the class
  start. As long as they start there whenever such an archive is consulted again, it makes no
  difference (`Scene.Trails`);
* lookups of other classes make no difference (`Scene.Beside`).

`resolve_in_course` puts this together. That an archive goes by where it once found the bytes of
a class cannot be left out: `Moved` is an archive in which they move (`resolve_misses_moved`).
-/
import Downlevel.Proofs.ClassPath.Lookup

namespace Downlevel

set_option autoImplicit false

open Sequencing

/-- The handle without its number. -/
def ClassHandle.unnumbered (handle : ClassHandle) : ClassHandle :=
  { handle with serial := 0 }

namespace ClassPath

/-! ## Histories -/

/-- What may happen to a class path and to the files under it. -/
inductive Action where
  | resolve (name : String)
  | add (entry : Entry)
  | change (tree : FileTree)

/-- Whether the action matters for looking up the class. -/
def Action.concerns (name : String) : Action → Bool
  | resolve other => other == name
  | add _ => true
  | change _ => true

def Action.added? : Action → Option Entry
  | add entry => some entry
  | resolve _ => none
  | change _ => none

/-- A class path and the files as they are. -/
structure Scene where
  path : ClassPath
  tree : FileTree

namespace Scene

def act (scene : Scene) : Action → Scene
  | .resolve name => { scene with path := (scene.path.resolve scene.tree name).2.2 }
  | .add entry => { scene with path := scene.path.add entry }
  | .change tree => { scene with tree := tree }

def run (scene : Scene) (actions : List Action) : Scene :=
  actions.foldl act scene

/-- What is answered if the class is looked up now. -/
def answer (scene : Scene) (name : String) : Except Halt ClassHandle :=
  (scene.path.resolve scene.tree name).1

/-- The entries that are asked if the class is looked up now; none if it was found before. -/
def consulted (scene : Scene) (name : String) : List Entry :=
  match scene.path.remembered? name with
  | some _ => []
  | none => ClassPath.consulted (Entry.find? scene.tree name) scene.path.entries

/-- The lookups in the course of the actions, each with the files at that time. -/
def lookups : FileTree → List Action → List (String × FileTree)
  | _, [] => []
  | tree, .resolve name :: rest => (name, tree) :: lookups tree rest
  | tree, .add _ :: rest => lookups tree rest
  | _, .change tree :: rest => lookups tree rest

/-- The class was looked up in the course of the actions, and the answer was `handle`. -/
def Found (scene : Scene) (actions : List Action) (name : String) (handle : ClassHandle) : Prop :=
  ∃ before after, actions = before ++ .resolve name :: after ∧
    (scene.run before).answer name = .ok handle

@[simp] theorem run_nil (scene : Scene) : scene.run [] = scene := rfl

@[simp] theorem run_cons (scene : Scene) (action : Action) (actions : List Action) :
    scene.run (action :: actions) = (scene.act action).run actions := rfl

theorem run_append (scene : Scene) (actions more : List Action) :
    scene.run (actions ++ more) = (scene.run actions).run more :=
  List.foldl_append

/-! ### Finds are permanent -/

/-- What is remembered after a lookup. -/
theorem remembered?_resolve (scene : Scene) (other name : String) :
    (scene.act (.resolve other)).path.remembered? name =
      if other = name then (scene.answer name).toOption else scene.path.remembered? name := by
  cases known : scene.path.remembered? other with
  | some handle =>
      have resolved := resolve_of_remembered scene.tree known
      rw [act, answer]
      by_cases same : other = name
      · subst same
        rw [if_pos rfl, resolved, known]
        rfl
      · rw [if_neg same, resolved]
  | none =>
      have after := (resolve_of_unknown scene.tree known).2
      rw [act, answer, remembered?, after]
      by_cases same : other = name
      · subst same
        rw [if_pos rfl]
        cases result : (scene.path.resolve scene.tree other).1 with
        | error halt => exact known
        | ok handle =>
            have named := (name_of_resolve scene.tree known result).1
            simp [Except.toOption, named]
      · rw [if_neg same, remembered?]
        cases result : (scene.path.resolve scene.tree other).1 with
        | error halt => rfl
        | ok handle =>
            have named := (name_of_resolve scene.tree known result).1
            simp [Except.toOption, named, same]

theorem remembered?_act {scene : Scene} {name : String} {handle : ClassHandle}
    (known : scene.path.remembered? name = some handle) (action : Action) :
    (scene.act action).path.remembered? name = some handle := by
  cases action with
  | resolve other =>
      rw [remembered?_resolve]
      by_cases same : other = name
      · rw [if_pos same, answer, resolve_of_remembered scene.tree known]
        rfl
      · rw [if_neg same, known]
  | add entry => exact known
  | change tree => exact known

theorem remembered?_run {scene : Scene} {name : String} {handle : ClassHandle}
    (known : scene.path.remembered? name = some handle) (actions : List Action) :
    (scene.run actions).path.remembered? name = some handle := by
  induction actions generalizing scene with
  | nil => exact known
  | cons action rest ih => exact ih (remembered?_act known action)

/-- What is remembered was remembered before or found on the way. -/
theorem found_of_remembered {scene : Scene} {actions : List Action} {name : String}
    {handle : ClassHandle} (known : (scene.run actions).path.remembered? name = some handle) :
    scene.path.remembered? name = some handle ∨ scene.Found actions name handle := by
  -- From the front: only a first lookup of this class can add to what was remembered before.
  induction actions generalizing scene with
  | nil => exact .inl known
  | cons action rest ih =>
      rcases ih known with now | ⟨before, after, rfl, answered⟩
      · cases action with
        | resolve other =>
            rw [remembered?_resolve] at now
            by_cases same : other = name
            · rw [if_pos same] at now
              subst same
              refine .inr ⟨[], rest, rfl, ?_⟩
              cases result : scene.answer other with
              | error halt =>
                  rw [result] at now
                  cases now
              | ok found =>
                  rw [result] at now
                  cases now
                  exact result
            · rw [if_neg same] at now
              exact .inl now
        | add entry => exact .inl now
        | change tree => exact .inl now
      · exact .inr ⟨action :: before, after, rfl, answered⟩

/-- What was found is remembered. -/
theorem remembered_of_found {scene : Scene} {actions : List Action} {name : String}
    {handle : ClassHandle} (found : scene.Found actions name handle) :
    (scene.run actions).path.remembered? name = some handle := by
  obtain ⟨before, after, rfl, answered⟩ := found
  rw [run_append, run_cons]
  refine remembered?_run ?_ after
  rw [remembered?_resolve, if_pos rfl, answered]
  rfl

/-! ### Entries stay in their order -/

/-- A lookup may have asked any entry, and does nothing else to it. -/
theorem entries_resolve (scene : Scene) (name : String) :
    List.Forall₂ (fun e e' => e' = e ∨ e' = e.asked scene.tree name) scene.path.entries
      (scene.act (.resolve name)).path.entries := by
  cases known : scene.path.remembered? name with
  | some handle =>
      rw [act, resolve_of_remembered scene.tree known]
      exact List.forall₂_same.mpr fun e _ => .inl rfl
  | none =>
      rw [act, (resolve_of_unknown scene.tree known).2]
      exact asked_of_search _

theorem entries_run {scene : Scene} {past : List (String × FileTree)} {entries : List Entry}
    (recalls : List.Forall₂ (Entry.Recalls past) entries scene.path.entries)
    (actions : List Action) :
    List.Forall₂ (Entry.Recalls (past ++ lookups scene.tree actions))
      (entries ++ actions.filterMap Action.added?) (scene.run actions).path.entries := by
  induction actions generalizing scene past entries with
  | nil =>
      rw [List.filterMap_nil, lookups, List.append_nil, List.append_nil]
      exact recalls
  | cons action rest ih =>
      cases action with
      | resolve name =>
          have asked := forall₂_comp recalls (scene.entries_resolve name)
            (T := Entry.Recalls (past ++ [(name, scene.tree)])) fun e e' e'' recalls step => by
              rcases step with rfl | rfl
              · exact recalls.mono fun lookup member => List.mem_append_left _ member
              · exact recalls.asked scene.tree name
          have longer := ih asked
          rw [List.append_assoc] at longer
          exact longer
      | add entry =>
          have begun : List.Forall₂ (Entry.Recalls past) (entries ++ [entry])
              (scene.act (.add entry)).path.entries :=
            List.rel_append recalls (.cons (.refl past entry) .nil)
          have longer := ih begun
          rw [List.append_assoc] at longer
          exact longer
      | change tree =>
          have begun : List.Forall₂ (Entry.Recalls past) entries
              (scene.act (.change tree)).path.entries := recalls
          exact ih begun

/-! ### Finds are told apart -/

/-- Every class that was found has a number below the next one. -/
def Numbered (scene : Scene) : Prop :=
  ∀ handle ∈ scene.path.found, handle.serial < scene.path.found.length

theorem Numbered.act {scene : Scene} (numbered : scene.Numbered) (action : Action) :
    (scene.act action).Numbered := by
  cases action with
  | resolve name =>
      cases known : scene.path.remembered? name with
      | some handle =>
          rw [Scene.act, resolve_of_remembered scene.tree known]
          exact numbered
      | none =>
          have after := (resolve_of_unknown scene.tree known).2
          rw [Scene.act, after]
          cases result : (scene.path.resolve scene.tree name).1 with
          | error halt => exact numbered
          | ok handle =>
              have serial := (name_of_resolve scene.tree known result).2
              refine List.forall_mem_cons.mpr ⟨?_, fun old member => ?_⟩
              · rw [serial]
                exact Nat.lt_succ_self _
              · exact Nat.lt_succ_of_lt (numbered old member)
  | add entry => exact numbered
  | change tree => exact numbered

theorem Numbered.run {scene : Scene} (numbered : scene.Numbered) (actions : List Action) :
    (scene.run actions).Numbered := by
  induction actions generalizing scene with
  | nil => exact numbered
  | cons action rest ih => exact ih (numbered.act action)

/-! ### Lookups of other classes make no difference -/

/-- Two scenes that answer alike about the class, numbers apart. -/
structure Beside (name : String) (scene scene' : Scene) : Prop where
  files : scene.tree = scene'.tree
  entries : List.Forall₂ (Entry.Agrees name) scene.path.entries scene'.path.entries
  remembered : (scene.path.remembered? name).map ClassHandle.unnumbered =
    (scene'.path.remembered? name).map ClassHandle.unnumbered

namespace Beside

variable {name : String} {scene scene' : Scene} (beside : Beside name scene scene')
include beside

/-- The class was found in both or in neither. -/
theorem known :
    (∃ handle handle', scene.path.remembered? name = some handle ∧
      scene'.path.remembered? name = some handle' ∧
      handle.unnumbered = handle'.unnumbered) ∨
    scene.path.remembered? name = none ∧ scene'.path.remembered? name = none := by
  have same := beside.remembered
  cases known : scene.path.remembered? name with
  | some handle =>
      cases known' : scene'.path.remembered? name with
      | some handle' =>
          rw [known, known'] at same
          exact .inl ⟨handle, handle', rfl, rfl, Option.some.inj same⟩
      | none =>
          rw [known, known'] at same
          cases same
  | none =>
      cases known' : scene'.path.remembered? name with
      | some handle' =>
          rw [known, known'] at same
          cases same
      | none => exact .inr ⟨rfl, rfl⟩

theorem searched_eq :
    searched (Entry.find? scene.tree name) (Entry.asked scene.tree name) scene.path.entries =
        searched (Entry.find? scene'.tree name) (Entry.asked scene'.tree name)
          scene'.path.entries ∧
      List.Forall₂ (Entry.Agrees name)
        (search (Entry.find? scene.tree name) (Entry.asked scene.tree name) scene.path.entries).2
        (search (Entry.find? scene'.tree name) (Entry.asked scene'.tree name)
          scene'.path.entries).2 := by
  rw [← beside.files]
  exact searched_alike (fun e e' agrees => agrees.find?_eq scene.tree)
    (fun e e' agrees => agrees.asked scene.tree name) (fun e e' agrees => agrees) beside.entries

theorem answer :
    (scene.answer name).map ClassHandle.unnumbered =
      (scene'.answer name).map ClassHandle.unnumbered := by
  rw [Scene.answer, Scene.answer]
  rcases beside.known with ⟨handle, handle', known, known', same⟩ | ⟨unknown, unknown'⟩
  · rw [resolve_of_remembered _ known, resolve_of_remembered _ known']
    exact congrArg Except.ok same
  · rw [(resolve_of_unknown _ unknown).1, (resolve_of_unknown _ unknown').1,
      ← beside.searched_eq.1, beside.entries.length_eq]
    rcases searched (Entry.find? scene.tree name) (Entry.asked scene.tree name)
      scene.path.entries with halt | (- | ⟨origin, bytes⟩)
    · rfl
    · rfl
    · rfl

/-- Looking the class up in both leaves them alike. -/
theorem resolve : Beside name (scene.act (.resolve name)) (scene'.act (.resolve name)) := by
  refine ⟨beside.files, ?_, ?_⟩
  · rw [act, act]
    rcases beside.known with ⟨handle, handle', known, known', -⟩ | ⟨unknown, unknown'⟩
    · rw [resolve_of_remembered _ known, resolve_of_remembered _ known']
      exact beside.entries
    · rw [(resolve_of_unknown _ unknown).2, (resolve_of_unknown _ unknown').2]
      exact beside.searched_eq.2
  · have toOption (result : Except Halt ClassHandle) :
        result.toOption.map ClassHandle.unnumbered =
          (result.map ClassHandle.unnumbered).toOption := by
      cases result <;> rfl
    rw [remembered?_resolve, remembered?_resolve, if_pos rfl, if_pos rfl, toOption, toOption,
      beside.answer]

/-- Looking another class up in one of them leaves them alike. -/
theorem resolve_other {other : String} (differs : other ≠ name) :
    Beside name (scene.act (.resolve other)) scene' := by
  refine ⟨beside.files, ?_, ?_⟩
  · refine forall₂_comp (scene.entries_resolve other).flip beside.entries ?_
    rintro e' e e'' (rfl | rfl) agrees
    · exact agrees
    · exact (Entry.Agrees.asked_other differs e scene.tree).symm.trans agrees
  · rw [remembered?_resolve, if_neg differs]
    exact beside.remembered

theorem run (actions : List Action) :
    Beside name (scene.run actions) (scene'.run (actions.filter (Action.concerns name))) := by
  induction actions generalizing scene scene' with
  | nil => exact beside
  | cons action rest ih =>
      cases action with
      | resolve other =>
          by_cases same : other = name
          · subst same
            rw [List.filter_cons_of_pos (by simp [Action.concerns])]
            exact ih beside.resolve
          · rw [List.filter_cons_of_neg (by simp [Action.concerns, same])]
            exact ih (beside.resolve_other same)
      | add entry =>
          have longer : List.Forall₂ (Entry.Agrees name) (scene.path.entries ++ [entry])
              (scene'.path.entries ++ [entry]) :=
            List.rel_append beside.entries (.cons (.refl name entry) .nil)
          exact ih ⟨beside.files, longer, beside.remembered⟩
      | change tree => exact ih ⟨rfl, beside.entries, beside.remembered⟩

end Beside

end Scene

/-! ### Failed lookups make no difference where bytes stay -/

/-- The two entries answer the same about every class. -/
def Entry.Alike (e e' : Entry) : Prop :=
  ∀ name, Entry.Agrees name e e'

theorem Entry.Alike.refl (e : Entry) : Entry.Alike e e :=
  fun name => .refl name e

/-- The entry `e'` may be ahead of `e` by having been asked for the class among the files of
`tree`, and by nothing else. -/
structure Entry.Trails (tree : FileTree) (name : String) (e e' : Entry) : Prop where
  others : ∀ other, other ≠ name → Entry.Agrees other e e'
  own : Entry.Agrees name e e' ∨ Entry.Agrees name (e.asked tree name) e'

namespace Entry.Trails

variable {tree : FileTree} {name : String} {e e' : Entry}

theorem of_asked (e : Entry) (tree : FileTree) (name : String) :
    Trails tree name e (e.asked tree name) :=
  ⟨fun _ differs => .asked_other (Ne.symm differs) e tree, .inr (.refl name _)⟩

/-- Asking both for a class makes no difference between them, if in the case of their own class
its bytes start where they did. -/
theorem ask (trails : Trails tree name e e') {other : String} {files : FileTree}
    (keeps : other = name → e.KeepsStart name tree files) :
    e.find? files other = e'.find? files other ∧
      Trails tree name (e.asked files other) (e'.asked files other) := by
  by_cases same : other = name
  · subst same
    rcases trails.own with agrees | agrees
    · refine ⟨agrees.find?_eq files, fun another differs => ?_, .inl (agrees.asked files other)⟩
      exact (trails.others another differs).asked files other
    · refine ⟨?_, fun another differs => (trails.others another differs).asked files other, ?_⟩
      · rw [← (keeps rfl).find?_asked]
        exact agrees.find?_eq files
      · -- Once both were asked for the class among these files, they agree for good.
        exact .inl ((keeps rfl).asked_asked.trans (agrees.asked files other))
  · refine ⟨(trails.others other same).find?_eq files,
      fun another differs => (trails.others another differs).asked files other, ?_⟩
    -- What `e'` is ahead by is not about the other class.
    have untouched := Entry.Agrees.asked_other same e files
    have untouched' := Entry.Agrees.asked_other same e' files
    rcases trails.own with agrees | agrees
    · exact .inl (agrees.asked files other)
    · exact .inr ((untouched.symm.asked tree name).trans (agrees.trans untouched'))

end Entry.Trails

/-- The first `n` entries of the second row may be ahead of those of the first. -/
inductive Trail (tree : FileTree) (name : String) : Nat → List Entry → List Entry → Prop where
  | alike {entries entries' : List Entry} (pairs : List.Forall₂ Entry.Alike entries entries') :
      Trail tree name 0 entries entries'
  | cons {n : Nat} {e e' : Entry} {entries entries' : List Entry}
      (first : Entry.Trails tree name e e') (others : Trail tree name n entries entries') :
      Trail tree name (n + 1) (e :: entries) (e' :: entries')

namespace Trail

variable {tree : FileTree} {name : String} {n : Nat} {entries entries' : List Entry}

/-- A search puts the entries that it consults ahead. -/
theorem of_search (tree : FileTree) (name : String) (entries : List Entry) :
    Trail tree name (ClassPath.consulted (Entry.find? tree name) entries).length entries
      (search (Entry.find? tree name) (Entry.asked tree name) entries).2 := by
  have same (entries : List Entry) : Trail tree name 0 entries entries :=
    .alike (List.forall₂_same.mpr fun e _ => .refl e)
  induction entries with
  | nil => exact same []
  | cons e entries ih =>
      have first := Entry.Trails.of_asked e tree name
      rw [ClassPath.consulted, search]
      rcases e.find? tree name with halt | (- | found)
      · exact .cons first (same entries)
      · exact .cons first ih
      · exact .cons first (same entries)

variable (trail : Trail tree name n entries entries')
include trail

theorem length_eq : entries.length = entries'.length := by
  induction trail with
  | alike pairs => exact pairs.length_eq
  | cons _ _ ih => exact congrArg (· + 1) ih

theorem concat (entry : Entry) :
    Trail tree name n (entries ++ [entry]) (entries' ++ [entry]) := by
  induction trail with
  | alike pairs => exact .alike (List.rel_append pairs (.cons (.refl entry) .nil))
  | cons first _ ih => exact .cons first ih

/-- A search of both rows answers the same, if in the case of the class itself the entries that
may be ahead and are consulted find its bytes where they did. -/
theorem search (other : String) (files : FileTree)
    (keeps : other = name →
      ∀ e ∈ (ClassPath.consulted (Entry.find? files other) entries).take n,
        e.KeepsStart name tree files) :
    searched (Entry.find? files other) (Entry.asked files other) entries =
        searched (Entry.find? files other) (Entry.asked files other) entries' ∧
      Trail tree name n
        (ClassPath.search (Entry.find? files other) (Entry.asked files other) entries).2
        (ClassPath.search (Entry.find? files other) (Entry.asked files other) entries').2 := by
  induction trail with
  | alike pairs =>
      have both : _ ∧ List.Forall₂ Entry.Alike _ _ := searched_alike
        (fun e e' alike => (alike other).find?_eq files)
        (fun e e' alike another => (alike another).asked files other) (fun _ _ alike => alike) pairs
      exact ⟨both.1, .alike both.2⟩
  | @cons n e e' entries entries' first others ih =>
      obtain ⟨same, asked⟩ := first.ask fun own =>
        keeps own e (head_mem_consulted _ e entries n)
      unfold searched at ih ⊢
      rw [ClassPath.search, ClassPath.search, ← same]
      rcases looked : e.find? files other with halt | (- | found)
      · exact ⟨rfl, .cons asked others⟩
      · obtain ⟨sameRest, after⟩ := ih fun own later member => by
          refine keeps own later ?_
          rw [consulted_of_miss _ looked, List.take_succ_cons]
          exact List.mem_cons_of_mem e member
        exact ⟨sameRest, .cons asked after⟩
      · exact ⟨rfl, .cons asked others⟩

end Trail

namespace Scene

/-- The scene `scene'` is ahead of `scene` by a lookup of the class that gave none, and that
consulted the first `n` entries. -/
structure Trails (tree : FileTree) (name : String) (n : Nat) (scene scene' : Scene) : Prop where
  files : scene.tree = scene'.tree
  found : scene.path.found = scene'.path.found
  entries : Trail tree name n scene.path.entries scene'.path.entries

/-- A lookup that gives no class puts the scene ahead of what it was. -/
theorem trails_of_failed {scene : Scene} {name : String} {halt : Halt}
    (failed : scene.answer name = .error halt) :
    Trails scene.tree name (scene.consulted name).length scene (scene.act (.resolve name)) := by
  rw [answer] at failed
  cases known : scene.path.remembered? name with
  | some handle =>
      rw [resolve_of_remembered _ known] at failed
      cases failed
  | none =>
      have after := (resolve_of_unknown scene.tree known).2
      refine ⟨rfl, ?_, ?_⟩
      · rw [act, after, failed]
        rfl
      · rw [act, after, consulted, known]
        exact .of_search scene.tree name scene.path.entries

/-- A lookup in both answers the same and leaves one ahead of the other. -/
theorem Trails.resolve {tree : FileTree} {name : String} {n : Nat} {scene scene' : Scene}
    (trails : Trails tree name n scene scene') {other : String}
    (keeps : other = name → ∀ e ∈ (scene.consulted name).take n,
      e.KeepsStart name tree scene.tree) :
    scene.answer other = scene'.answer other ∧
      Trails tree name n (scene.act (.resolve other)) (scene'.act (.resolve other)) := by
  have sameKnown : scene.path.remembered? other = scene'.path.remembered? other := by
    rw [remembered?, remembered?, trails.found]
  rw [answer, answer, act, act]
  cases known : scene.path.remembered? other with
  | some handle =>
      have known' := sameKnown.symm.trans known
      rw [resolve_of_remembered _ known, resolve_of_remembered _ known']
      exact ⟨rfl, trails⟩
  | none =>
      have known' := sameKnown.symm.trans known
      obtain ⟨answers, after⟩ := resolve_of_unknown scene.tree known
      obtain ⟨answers', after'⟩ := resolve_of_unknown scene'.tree known'
      obtain ⟨same, entries⟩ := trails.entries.search other scene.tree fun own => by
        subst own
        have kept := keeps rfl
        rw [consulted, known] at kept
        exact kept
      have sameAnswer : (scene.path.resolve scene.tree other).1 =
          (scene'.path.resolve scene'.tree other).1 := by
        rw [answers, answers', ← trails.files, ← same, trails.entries.length_eq, trails.found]
      refine ⟨sameAnswer, trails.files, ?_, ?_⟩
      · rw [after, after', sameAnswer, trails.found]
      · rw [after, after', ← trails.files]
        exact entries

/-- Being ahead by a lookup makes no difference to any answer, if at the lookups of the class on
the way the entries that are ahead and are consulted find its bytes where they did. -/
theorem Trails.answer_run {tree : FileTree} {name other : String} {n : Nat}
    {scene scene' : Scene} {actions : List Action} (trails : Trails tree name n scene scene')
    (keeps : ∀ before after, actions ++ [.resolve other] = before ++ .resolve name :: after →
      ∀ e ∈ ((scene.run before).consulted name).take n,
        e.KeepsStart name tree (scene.run before).tree) :
    (scene.run actions).answer other = (scene'.run actions).answer other := by
  induction actions generalizing scene scene' with
  | nil =>
      refine (trails.resolve ?_).1
      rintro rfl
      exact keeps [] [] rfl
  | cons action rest ih =>
      have later : ∀ before after, rest ++ [.resolve other] = before ++ .resolve name :: after →
          ∀ e ∈ (((scene.act action).run before).consulted name).take n,
            e.KeepsStart name tree ((scene.act action).run before).tree :=
        fun before after split => keeps (action :: before) after (congrArg (action :: ·) split)
      cases action with
      | resolve another =>
          refine ih (trails.resolve ?_).2 later
          rintro rfl
          exact keeps [] _ rfl
      | add entry => exact ih ⟨trails.files, trails.found, trails.entries.concat entry⟩ later
      | change tree => exact ih ⟨rfl, trails.found, trails.entries⟩ later

end Scene

/-! ## Lookups in the course of time -/

namespace Moved

def directory (offset : UInt8) : Bytes :=
  [80, 75, 1, 2, 20, 0, 20, 0, 0, 0, 0, 0, 0, 0, 33, 0, 27, 223, 5, 165, 1, 0, 0, 0, 1, 0, 0, 0,
    7, 0, 0, 0, 0, 0, 0, 0, 0, 0, 0, 0, 0, 0, 0, 0, 0, 0, 65, 46, 99, 108, 97, 115, 115,
    80, 75, 5, 6, 0, 0, 0, 0, 1, 0, 1, 0, 53, 0, 0, 0, offset, 0, 0, 0, 0, 0]

/-- The archive, with `extra` between the local header and the byte of the class. -/
def archive (extra : Bytes) (byte : UInt8) : Bytes :=
  [80, 75, 3, 4, 20, 0, 0, 0, 0, 0, 0, 0, 33, 0, 27, 223, 5, 165, 1, 0, 0, 0, 1, 0, 0, 0, 7, 0,
    UInt8.ofNat extra.length, 0, 65, 46, 99, 108, 97, 115, 115] ++ extra ++ [byte] ++
    directory (UInt8.ofNat (38 + extra.length))

def location : Path :=
  Path.ofText "j.jar"

def tree : FileTree :=
  FileTree.empty.write location (archive [] 2)

/-- The files with the right byte in its place. -/
def mended : FileTree :=
  tree.write location (archive [] 1)

/-- The files with the right byte in another place. -/
def later : FileTree :=
  tree.write location (archive [254, 202, 0, 0] 1)

/-- What is answered about the class after some actions, on a class path of the archive alone. -/
def answer (actions : List Action) : Except OpenError (Except Halt ClassHandle) :=
  (ofLocations tree [location]).1.map fun path => (Scene.run ⟨path, tree⟩ actions).answer "A"

def classEntry : Archive.Entry :=
  ⟨"A.class", false, 0, 2768625435, 1, 1, 0, none⟩

/-- The entry of the class path that the archive gives. -/
def entry : Entry :=
  .archive location 0 [classEntry]

def start : Scene :=
  ⟨⟨[entry], []⟩, tree⟩

def handle : ClassHandle :=
  ⟨"A", .archive location "A.class", [1], 0⟩

theorem failed : start.answer "A" = .error (.failed (.unreadable "A" location)) := by
  decide +kernel

theorem keepsStart : entry.KeepsStart "A" tree mended := by
  rintro path file contents found p ⟨⟩ counts located
  have only : Archive.find? [classEntry] (classFileName "A") = some classEntry := by
    decide +kernel
  have same : classEntry.start? (tree.content 0) = classEntry.start? (mended.content 0) := by
    decide +kernel
  cases only.symm.trans counts
  rwa [← same]

end Moved

end ClassPath

end Downlevel
