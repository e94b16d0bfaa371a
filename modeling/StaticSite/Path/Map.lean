import StaticSite.Path.Basic

/-!
# Maps from paths

A finite map whose keys are paths. Two paths with the same components are the same key, and the key
that was inserted first keeps its spelling.
-/

namespace StaticSite

/-- A finite map from paths. -/
structure PathMap (α : Type) where
  /-- The keys with their values, in the order of their insertion. -/
  entries : List (Path × α) := []

namespace PathMap

variable {α : Type}

/-- The map without keys. -/
def empty : PathMap α := {}

instance : Inhabited (PathMap α) := ⟨empty⟩

/-- The value in a list of entries. -/
def find? (p : Path) : List (Path × α) → Option α
  | [] => none
  | e :: es => if e.1.same p then some e.2 else find? p es

/-- The value at a path. -/
def get? (m : PathMap α) (p : Path) : Option α := find? p m.entries

/-- Whether the path is a key. -/
def contains (m : PathMap α) (p : Path) : Bool := (m.get? p).isSome

/-- Sets a value in a list of entries. -/
def set (p : Path) (a : α) : List (Path × α) → List (Path × α)
  | [] => [(p, a)]
  | e :: es => if e.1.same p then (e.1, a) :: es else e :: set p a es

/-- Sets the value at a path. -/
def insert (m : PathMap α) (p : Path) (a : α) : PathMap α := ⟨set p a m.entries⟩

/-- Removes a path. -/
def erase (m : PathMap α) (p : Path) : PathMap α := ⟨m.entries.filter fun e => !e.1.same p⟩

/-- The keys as they were inserted. -/
def keys (m : PathMap α) : List Path := m.entries.map (·.1)

@[simp] theorem get?_empty (p : Path) : (empty : PathMap α).get? p = none := rfl

theorem find?_set (p q : Path) (a : α) (es : List (Path × α)) :
    find? q (set p a es) = if p.same q then some a else find? q es := by
  induction es with
  | nil => rfl
  | cons e es ih =>
    simp only [set]
    by_cases he : e.1.same p
    · have : e.1.same q = p.same q := by simp [Path.same] at he ⊢; rw [he]
      simp [he, find?, this]
      split <;> rfl
    · simp only [he, Bool.false_eq_true, if_false, find?, ih]
      by_cases hq : e.1.same q
      · have : p.same q = false := by
          simp [Path.same] at he hq ⊢
          exact fun h => he (by rw [hq, h])
        simp [hq, this]
      · simp [hq]

theorem get?_insert (m : PathMap α) (p q : Path) (a : α) :
    (m.insert p a).get? q = if p.same q then some a else m.get? q := find?_set p q a m.entries

theorem get?_erase (m : PathMap α) (p q : Path) :
    (m.erase p).get? q = if p.same q then none else m.get? q := by
  obtain ⟨es⟩ := m
  show find? q (es.filter _) = if p.same q then none else find? q es
  induction es with
  | nil => simp [find?]
  | cons e es ih =>
    by_cases he : e.1.same p
    · have : e.1.same q = p.same q := by simp [Path.same] at he ⊢; rw [he]
      simp [he, find?, this, ih]
      split <;> rfl
    · by_cases hq : e.1.same q
      · have : p.same q = false := by
          simp [Path.same] at he hq ⊢
          exact fun h => he (by rw [hq, h])
        simp [he, hq, find?, this]
      · simp [he, hq, find?, ih]

end PathMap

end StaticSite
