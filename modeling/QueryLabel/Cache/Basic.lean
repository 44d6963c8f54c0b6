import QueryLabel.Capacity
/-!
A bounded cache. A new key drives out the oldest one; reading a key or writing
it again does not make it younger.
-/

namespace QueryLabel

/-- Entries from the oldest to the youngest, and how many are allowed. -/
structure Cache (V : Type) where
  entries : List (String × V)
  capacity : Capacity

namespace Cache

variable {V : Type}

def empty (capacity : Capacity) : Cache V := ⟨[], capacity⟩

/-- The keys in the order in which they would be driven out. -/
def keys (c : Cache V) : List String :=
  c.entries.map Prod.fst

def size (c : Cache V) : Nat :=
  c.entries.length

def isEmpty (c : Cache V) : Bool :=
  c.entries.isEmpty

def get? (c : Cache V) (key : String) : Option V :=
  c.entries.lookup key

def contains (c : Cache V) (key : String) : Bool :=
  c.keys.elem key

/-- Gives an existing key another value, in its place. -/
def overwrite (key : String) (value : V) (entries : List (String × V)) : List (String × V) :=
  entries.map fun e => if e.1 == key then (e.1, value) else e

/-- Makes room for one more entry. -/
def makeRoom (c : Cache V) : List (String × V) :=
  if c.size < c.capacity then c.entries else c.entries.tail

/-- Writes a key. Only a key that was absent counts as new. -/
def store (c : Cache V) (key : String) (value : V) : Cache V :=
  if c.contains key then { c with entries := overwrite key value c.entries }
  else { c with entries := c.makeRoom ++ [(key, value)] }

/-- The value of a key, computed and stored if it is absent. -/
def fetchM {m : Type → Type} [Monad m] [MonadStateOf (Cache V) m] (key : String)
    (compute : m V) : m V := do
  match (← getThe (Cache V)).get? key with
  | some value => return value
  | none =>
    let value ← compute
    modifyThe (Cache V) (·.store key value)
    return value

/-- The value of a key, with a computation that always gives one. -/
def fetch (c : Cache V) (key : String) (compute : Unit → V) : V × Cache V :=
  (fetchM key fun c => (compute (), c) : StateM (Cache V) V).run c

/-- A cache over its new capacity is emptied, not trimmed. -/
def configure (c : Cache V) (capacity : Capacity) : Cache V :=
  if capacity < c.size then empty capacity else { c with capacity }

def clear (c : Cache V) : Cache V :=
  empty c.capacity

variable {c : Cache V} {key k : String} {value : V} {n : Capacity}

theorem contains_iff : c.contains key ↔ key ∈ c.keys := by
  simp [contains]

theorem length_keys : c.keys.length = c.size := by
  simp [keys, size]

theorem isSome_get?_iff : (c.get? key).isSome ↔ key ∈ c.keys := by
  simp only [get?, keys, List.lookup_isSome_iff, List.mem_map, beq_iff_eq]
  exact exists_congr fun e => and_congr_right fun _ => eq_comm

theorem mem_keys_of_get? (h : c.get? key = some value) : key ∈ c.keys :=
  isSome_get?_iff.1 (Option.isSome_iff_exists.2 ⟨value, h⟩)

theorem get?_eq_none_iff : c.get? key = none ↔ key ∉ c.keys := by
  rw [← isSome_get?_iff, Option.not_isSome_iff_eq_none]

theorem mem_of_get? (h : c.get? key = some value) : (key, value) ∈ c.entries := by
  obtain ⟨as, bs, hs, _⟩ := List.lookup_eq_some_iff.1 h
  rw [hs]
  exact List.mem_append_right as List.mem_cons_self

theorem mem_of_mem_makeRoom {e : String × V} (h : e ∈ c.makeRoom) : e ∈ c.entries := by
  unfold makeRoom at h
  split at h
  · exact h
  · exact List.mem_of_mem_tail h

theorem keys_overwrite {entries : List (String × V)} :
    (overwrite key value entries).map Prod.fst = entries.map Prod.fst := by
  simp only [overwrite, List.map_map]
  apply List.map_congr_left
  intro e _
  simp only [Function.comp]
  split <;> rfl

theorem store_of_mem (h : key ∈ c.keys) :
    c.store key value = { c with entries := overwrite key value c.entries } := by
  simp [store, contains_iff.2 h]

theorem store_of_not_mem (h : key ∉ c.keys) :
    c.store key value = { c with entries := c.makeRoom ++ [(key, value)] } := by
  simp [store, contains_iff, h]

theorem keys_store_of_mem (h : key ∈ c.keys) : (c.store key value).keys = c.keys := by
  rw [store_of_mem h]
  exact keys_overwrite

theorem keys_store_of_not_mem (h : key ∉ c.keys) :
    (c.store key value).keys =
      (if c.size < c.capacity then c.keys else c.keys.tail) ++ [key] := by
  rw [store_of_not_mem h]
  simp only [keys, makeRoom, List.map_append]
  split <;> simp

theorem capacity_store : (c.store key value).capacity = c.capacity := by
  unfold store
  split <;> rfl

theorem capacity_configure : (c.configure n).capacity = n := by
  unfold configure
  split <;> rfl

theorem fetch_of_some {compute : Unit → V} (h : c.get? key = some value) :
    c.fetch key compute = (value, c) := by
  change StateT.run (match c.get? key with | some value => _ | none => _) c = _
  rw [h]
  rfl

theorem fetch_of_none {compute : Unit → V} (h : c.get? key = none) :
    c.fetch key compute = (compute (), c.store key (compute ())) := by
  change StateT.run (match c.get? key with | some value => _ | none => _) c = _
  rw [h]
  rfl

end Cache

end QueryLabel
