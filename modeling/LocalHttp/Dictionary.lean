namespace LocalHttp

abbrev Dictionary (α : Type) := List (String × α)

namespace Dictionary

variable {α : Type}

def insert (key : String) (value : α) : Dictionary α → Dictionary α
  | [] => [(key, value)]
  | (other, v) :: rest =>
    if key < other then (key, value) :: (other, v) :: rest
    else if key = other then (key, value) :: rest
    else (other, v) :: insert key value rest

def get? (d : Dictionary α) (key : String) : Option α := (d.find? fun e ↦ e.1 == key).map (·.2)

def keys (d : Dictionary α) : List String := d.map (·.1)

def ofList (entries : List (String × α)) : Dictionary α :=
  entries.foldl (fun d (key, value) ↦ insert key value d) []

theorem get?_insert (d : Dictionary α) (key other : String) (value : α) :
    get? (insert key value d) other = if key = other then some value else get? d other := by
  induction d with
  | nil => by_cases h : key = other <;> simp [insert, get?, h]
  | cons e rest ih =>
    obtain ⟨k, v⟩ := e
    have hc (w : α) : get? ((k, w) :: rest) other =
        if k = other then some w else get? rest other := by
      by_cases h : k = other <;> simp [get?, h]
    have hi : get? ((k, v) :: insert key value rest) other =
        if k = other then some v else get? (insert key value rest) other := by
      by_cases h : k = other <;> simp [get?, h]
    have hn (d : Dictionary α) : get? ((key, value) :: d) other =
        if key = other then some value else get? d other := by
      by_cases h : key = other <;> simp [get?, h]
    unfold insert
    split
    · exact hn _
    · split
      · rename_i he
        rw [hn, hc, he]
        split <;> simp_all
      · rename_i hne
        rw [hi, hc, ih]
        by_cases h1 : k = other <;> by_cases h2 : key = other <;> simp_all

theorem mem_of_get? {d : Dictionary α} {key : String} {value : α}
    (h : d.get? key = some value) : ∃ entry ∈ d, entry.2 = value := by
  obtain ⟨entry, hf, he⟩ := Option.map_eq_some_iff.1 h
  exact ⟨entry, List.mem_of_find?_eq_some hf, he⟩

end Dictionary

end LocalHttp
