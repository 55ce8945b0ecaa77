/-
# Downlevel.Proofs.ClassPath.Lookup — looking a class up once

A search asks entries in order, and the first one that has the class, fails or breaks down
decides (`search_cases`). `Searches` says so of a class path: what is answered, and which entries
were asked on the way. The entries up to the one that decides are those that the search consults
(`consulted`). Entries that answer the same are searched alike (`searched_alike`).
-/
import Downlevel.Proofs.ClassPath.Entries

namespace Downlevel.ClassPath

set_option autoImplicit false

/-! ## Searching -/

section Search

variable {ε α : Type} (look : ε → Except Halt (Option α)) (asked : ε → ε)

/-- The entries that a search asks: all up to the one that decides. -/
def consulted : List ε → List ε
  | [] => []
  | entry :: rest =>
      match look entry with
      | .ok none => entry :: consulted rest
      | _ => [entry]

theorem consulted_of_miss {entry : ε} (missed : look entry = .ok none) (rest : List ε) :
    consulted look (entry :: rest) = entry :: consulted look rest := by
  rw [consulted, missed]

theorem mem_of_mem_consulted {look : ε → Except Halt (Option α)} {entries : List ε} {entry : ε}
    (member : entry ∈ consulted look entries) : entry ∈ entries := by
  induction entries with
  | nil => exact member
  | cons first rest ih =>
      rw [consulted] at member
      split at member
      · rcases List.mem_cons.mp member with rfl | member
        · exact List.mem_cons_self
        · exact List.mem_cons_of_mem first (ih member)
      · exact List.mem_singleton.mp member ▸ List.mem_cons_self

/-- The first entry is always asked. -/
theorem head_mem_consulted (entry : ε) (rest : List ε) (n : Nat) :
    entry ∈ (consulted look (entry :: rest)).take (n + 1) := by
  rw [consulted]
  split <;> exact List.mem_cons_self

/-- The three ways in which a search ends. -/
theorem search_cases (entries : List ε) :
    (∃ front entry back a, entries = front ++ entry :: back ∧
      (∀ e ∈ front, look e = .ok none) ∧ look entry = .ok (some a) ∧
      search look asked entries =
        (.ok (some (entry, a)), front.map asked ++ asked entry :: back)) ∨
    (∃ front entry back halt, entries = front ++ entry :: back ∧
      (∀ e ∈ front, look e = .ok none) ∧ look entry = .error halt ∧
      search look asked entries = (.error halt, front.map asked ++ asked entry :: back)) ∨
    (∀ e ∈ entries, look e = .ok none) ∧
      search look asked entries = (.ok none, entries.map asked) := by
  induction entries with
  | nil => exact .inr (.inr ⟨fun e member => absurd member List.not_mem_nil, rfl⟩)
  | cons entry rest ih =>
      rw [search]
      cases looked : look entry with
      | error halt =>
          exact .inr (.inl ⟨[], entry, rest, halt, rfl,
            fun e member => absurd member List.not_mem_nil, looked, rfl⟩)
      | ok result =>
          cases result with
          | some a =>
              exact .inl ⟨[], entry, rest, a, rfl,
                fun e member => absurd member List.not_mem_nil, looked, rfl⟩
          | none =>
              rcases ih with ⟨front, hit, back, a, rfl, misses, has, searched⟩ |
                ⟨front, stop, back, halt, rfl, misses, halts, searched⟩ | ⟨misses, searched⟩
              · exact .inl ⟨entry :: front, hit, back, a, rfl,
                  List.forall_mem_cons.mpr ⟨looked, misses⟩, has, by rw [searched]; rfl⟩
              · exact .inr (.inl ⟨entry :: front, stop, back, halt, rfl,
                  List.forall_mem_cons.mpr ⟨looked, misses⟩, halts, by rw [searched]; rfl⟩)
              · exact .inr (.inr ⟨List.forall_mem_cons.mpr ⟨looked, misses⟩, by rw [searched]; rfl⟩)

/-- What the search answers, whichever entry it is that has the class. -/
def searched (entries : List ε) : Except Halt (Option α) :=
  (search look asked entries).1.map (Option.map Prod.snd)

variable {look asked}

/-- After a search, some entries were asked, and the others are as they were. -/
theorem asked_of_search (entries : List ε) :
    List.Forall₂ (fun e e' => e' = e ∨ e' = asked e) entries (search look asked entries).2 := by
  induction entries with
  | nil => exact .nil
  | cons entry rest ih =>
      have others : List.Forall₂ (fun e e' => e' = e ∨ e' = asked e) rest rest :=
        List.forall₂_same.mpr fun e _ => .inl rfl
      rw [search]
      cases look entry with
      | error halt => exact .cons (.inr rfl) others
      | ok result =>
          cases result with
          | some a => exact .cons (.inr rfl) others
          | none => exact .cons (.inr rfl) ih

/-- Entries that answer the same are searched alike. `R` relates them before the search, `R'`
after it. -/
theorem searched_alike {R R' : ε → ε → Prop} (answers : ∀ e e', R e e' → look e = look e')
    (ask : ∀ e e', R e e' → R' (asked e) (asked e')) (keep : ∀ e e', R e e' → R' e e')
    {entries entries' : List ε} (pairs : List.Forall₂ R entries entries') :
    searched look asked entries = searched look asked entries' ∧
      List.Forall₂ R' (search look asked entries).2 (search look asked entries').2 := by
  induction pairs with
  | nil => exact ⟨rfl, .nil⟩
  | @cons e e' entries entries' pair pairs ih =>
      have others := pairs.imp keep
      have same := answers e e' pair
      unfold searched at ih ⊢
      rw [search, search]
      cases looked : look e with
      | error halt =>
          rw [← same, looked]
          exact ⟨rfl, .cons (ask e e' pair) others⟩
      | ok result =>
          rw [← same, looked]
          cases result with
          | some a => exact ⟨rfl, .cons (ask e e' pair) others⟩
          | none => exact ⟨ih.1, .cons (ask e e' pair) ih.2⟩

end Search

/-! ## A single lookup -/

/-- Looking a class up among entries, what is answered, and the entries after that. The first
entry that has the class, fails or breaks down decides, and those behind it are not asked. A find
gets the number `serial`. -/
inductive Searches (tree : FileTree) (name : String) (serial : Nat) :
    List Entry → Except Halt ClassHandle → List Entry → Prop where
  | hit {front back : List Entry} {entry : Entry} {origin : Origin} {bytes : Bytes}
      (misses : ∀ e ∈ front, e.find? tree name = .ok none)
      (has : entry.find? tree name = .ok (some (origin, bytes))) :
      Searches tree name serial (front ++ entry :: back) (.ok ⟨name, origin, bytes, serial⟩)
        (front.map (Entry.asked tree name) ++ entry.asked tree name :: back)
  | stopped {front back : List Entry} {entry : Entry} {failure : ResolutionError}
      (misses : ∀ e ∈ front, e.find? tree name = .ok none)
      (fails : entry.find? tree name = .error (.failed failure))
      (other : ∀ asked searched, failure ≠ .notFound asked searched) :
      Searches tree name serial (front ++ entry :: back) (.error (.failed failure))
        (front.map (Entry.asked tree name) ++ entry.asked tree name :: back)
  | broken {front back : List Entry} {entry : Entry}
      (misses : ∀ e ∈ front, e.find? tree name = .ok none)
      (oversized : entry.Oversized tree name) :
      Searches tree name serial (front ++ entry :: back) (.error .overflow)
        (front.map (Entry.asked tree name) ++ entry.asked tree name :: back)
  | missed {entries : List Entry} (misses : ∀ e ∈ entries, e.find? tree name = .ok none) :
      Searches tree name serial entries (.error (.failed (.notFound name entries.length)))
        (entries.map (Entry.asked tree name))

section Resolve

variable {path : ClassPath} (tree : FileTree) {name : String}

theorem resolve_of_remembered {handle : ClassHandle}
    (known : path.remembered? name = some handle) :
    path.resolve tree name = (.ok handle, [], path) := by
  rw [resolve, known]

variable (unknown : path.remembered? name = none)
include unknown

theorem searches_of_resolve :
    Searches tree name path.found.length path.entries (path.resolve tree name).1
      (path.resolve tree name).2.2.entries := by
  rw [resolve, unknown]
  obtain ⟨entries, found⟩ := path
  rcases search_cases (Entry.find? tree name) (Entry.asked tree name) entries with
    ⟨front, entry, back, ⟨origin, bytes⟩, rfl, misses, has, searched⟩ |
    ⟨front, entry, back, halt, rfl, misses, halts, searched⟩ | ⟨misses, searched⟩
  · simp only [searched]
    exact .hit misses has
  · simp only [searched]
    cases halt with
    | failed failure => exact .stopped misses halts (Entry.find?_ne_notFound halts)
    | overflow => exact .broken misses (Entry.find?_eq_overflow.mp halts)
  · simp only [searched]
    exact .missed misses

/-- A lookup answers what the search answers. It leaves the entries as the search leaves them,
and remembers what it found. -/
theorem resolve_of_unknown :
    (path.resolve tree name).1 =
        ((searched (Entry.find? tree name) (Entry.asked tree name) path.entries).bind fun result =>
          result.elim (.error (.failed (.notFound name path.entries.length))) fun found =>
            .ok ⟨name, found.1, found.2, path.found.length⟩) ∧
      (path.resolve tree name).2.2 =
        ⟨(search (Entry.find? tree name) (Entry.asked tree name) path.entries).2,
          (path.resolve tree name).1.toOption.toList ++ path.found⟩ := by
  rw [resolve, unknown, searched]
  rcases search (Entry.find? tree name) (Entry.asked tree name) path.entries with
    ⟨halt | (- | ⟨entry, origin, bytes⟩), entries⟩
  · exact ⟨rfl, rfl⟩
  · exact ⟨rfl, rfl⟩
  · exact ⟨rfl, rfl⟩

/-- Whatever is found has the name that was looked up. -/
theorem name_of_resolve {handle : ClassHandle} (found : (path.resolve tree name).1 = .ok handle) :
    handle.name = name ∧ handle.serial = path.found.length := by
  have searches := searches_of_resolve tree unknown
  rw [found] at searches
  generalize path.entries = entries, (path.resolve tree name).2.2.entries = after at searches
  cases searches
  exact ⟨rfl, rfl⟩

end Resolve

end Downlevel.ClassPath
