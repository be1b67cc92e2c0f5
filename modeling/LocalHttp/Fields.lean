import LocalHttp.Text

namespace LocalHttp

structure Field where
  name : String
  value : String
  deriving DecidableEq

namespace Field

def read (f : Field) (kind : ScalarKind) : Except ScalarError Scalar :=
  Scalar.ofChars kind (Text.trim f.value.toList)

/-- Whether the value is the word "true" in any case; padding counts. -/
def isTrue (f : Field) : Bool := f.value.toLower == "true"

end Field

/-- At most one field per key, in the order in which the keys first came. -/
structure FieldTable (key : String → String) where
  fields : List Field
  distinct : fields.Pairwise fun a b ↦ key a.name ≠ key b.name
  deriving DecidableEq

namespace FieldTable

variable {key : String → String}

def empty : FieldTable key := ⟨[], .nil⟩

instance : Inhabited (FieldTable key) := ⟨empty⟩

def size (t : FieldTable key) : Nat := t.fields.length

def isEmpty (t : FieldTable key) : Bool := t.fields.isEmpty

def get? (t : FieldTable key) (name : String) : Option Field :=
  t.fields.find? fun f ↦ key f.name == key name

def value? (t : FieldTable key) (name : String) : Option String := (t.get? name).map (·.value)

def contains (t : FieldTable key) (name : String) : Bool := (t.get? name).isSome

theorem key_ne_of_not_contains {t : FieldTable key} {name : String}
    (h : ¬t.contains name = true) : ∀ f ∈ t.fields, key f.name ≠ key name := by
  intro f hf he
  apply h
  simp only [contains, get?, List.find?_isSome]
  exact ⟨f, hf, by simpa using he⟩

def insert (t : FieldTable key) (f : Field) : FieldTable key :=
  if h : t.contains f.name then t
  else
    { fields := t.fields ++ [f]
      distinct := by
        have hne := key_ne_of_not_contains h
        refine List.pairwise_append.2 ⟨t.distinct, List.pairwise_singleton _ _, ?_⟩
        intro a ha b hb
        rw [List.mem_singleton.1 hb]
        exact hne a ha }

def add (t : FieldTable key) (name value : String) : FieldTable key := t.insert ⟨name, value⟩

def offer (t : FieldTable key) (name value : String) : Bool × FieldTable key :=
  (!t.contains name, t.add name value)

def ofList (fields : List Field) : FieldTable key := fields.foldl insert empty

def merge (t other : FieldTable key) : FieldTable key := other.fields.foldl insert t

/-- Changes the value of a field in place; order and names stay. -/
def set (t : FieldTable key) (name value : String) : FieldTable key where
  fields := t.fields.map fun f ↦ if key f.name = key name then { f with value := value } else f
  distinct := by
    refine List.pairwise_map.2 (t.distinct.imp ?_)
    intro a b h
    split <;> split <;> exact h

end FieldTable

abbrev Headers := FieldTable String.toLower

abbrev Arguments := FieldTable id

end LocalHttp
