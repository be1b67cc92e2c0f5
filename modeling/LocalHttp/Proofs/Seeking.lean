import LocalHttp.Proofs.Delimiter

namespace LocalHttp

namespace Bytes

variable {d u : Bytes}

/-- The longest tail of `u` that is a proper beginning of `d`. -/
structure LongestStart (d u tail : Bytes) : Prop where
  suffix : tail <:+ u
  start : tail <+: d
  proper : tail ≠ d
  longest : ∀ other, other <:+ u → other <+: d → other ≠ d → other.length ≤ tail.length

theorem longestStart_drop_overlapFrom (h : ¬d <:+: u) :
    LongestStart d u (u.drop (overlapFrom d 0 u)) := by
  obtain ⟨hstart, hlongest⟩ := overlapAt_overlapFrom d u
  refine ⟨List.drop_suffix _ u, hstart, ?_, ?_⟩
  · intro he
    exact h (he ▸ (List.drop_suffix _ u).isInfix)
  · intro other hsuffix hother _
    have hle := hsuffix.length_le
    rcases Nat.lt_or_ge (u.length - other.length) (overlapFrom d 0 u) with hlt | hge
    · rw [List.suffix_iff_eq_drop.1 hsuffix] at hother
      exact absurd hother (hlongest _ hlt)
    · rw [List.length_drop]
      omega

theorem LongestStart.length_lt {tail : Bytes} (h : LongestStart d u tail) :
    tail.length < d.length := by
  rcases Nat.lt_or_ge tail.length d.length with hlt | hge
  · exact hlt
  · exact absurd (h.start.eq_of_length_le hge) h.proper

/-- How far `takeUntil` goes: to the first occurrence, else to the longest tail that may begin
one. -/
def cut (d u : Bytes) : Nat := (find? d u).getD (overlapFrom d 0 u)

theorem cut_of_some {p : Nat} (h : find? d u = some p) : cut d u = p := by rw [cut, h]; rfl

theorem cut_of_none (h : find? d u = none) : cut d u = overlapFrom d 0 u := by rw [cut, h]; rfl

theorem cut_le (d u : Bytes) : cut d u ≤ u.length := by
  cases h : find? d u with
  | some p =>
    rw [cut_of_some h]
    exact Nat.le_trans (Nat.le_add_right p d.length) (le_of_find? h)
  | none =>
    rw [cut_of_none h]
    exact overlapFrom_le d u

theorem cut_append_of_some (v : Bytes) {p : Nat} (h : find? d u = some p) :
    cut d (u ++ v) = cut d u := by
  rw [cut_of_some h, cut_of_some (find?_append_of_some v h)]

theorem cut_append_of_none (v : Bytes) (h : find? d u = none) :
    cut d (u ++ v) = cut d u + cut d (u.drop (cut d u) ++ v) := by
  have hfind := find?_append_of_none v h
  rw [cut_of_none h]
  cases hv : find? d (u.drop (overlapFrom d 0 u) ++ v) with
  | some p =>
    rw [hv] at hfind
    rw [cut_of_some hfind, cut_of_some hv]
  | none =>
    rw [hv] at hfind
    rw [cut_of_none hfind, cut_of_none hv, overlapFrom_append]

end Bytes

namespace Buffer

structure Search where
  taken : List Bytes
  found : Bool
  buffer : Buffer
  later : List Bytes

/-- Writes one piece after another, each into a realigned buffer, and takes what stands before
`delimiter` after each, until it is found. -/
def search (b : Buffer) (delimiter : Bytes) : List Bytes → Search
  | [] => ⟨[], false, b, []⟩
  | piece :: pieces =>
    match (b.realign.write piece).takeUntil delimiter with
    | (token, true, rest) => ⟨[token], true, rest, pieces⟩
    | (token, false, rest) =>
      let onward := rest.search delimiter pieces
      { onward with taken := token :: onward.taken }

/-- Every piece that the search writes finds room for all of its bytes. -/
def Fits (b : Buffer) (delimiter : Bytes) : List Bytes → Prop
  | [] => True
  | piece :: pieces =>
    piece.length ≤ b.realign.writable ∧
      match (b.realign.write piece).takeUntil delimiter with
      | (_, true, _) => True
      | (_, false, rest) => rest.Fits delimiter pieces

structure Search.Reaches (s : Search) (d w : Bytes) : Prop where
  found : s.found = true
  firstAt : d.FirstAt w s.taken.flatten.length
  standing : d <+: s.buffer.unread
  all : s.taken.flatten ++ (s.buffer.unread ++ s.later.flatten) = w

structure Search.Misses (s : Search) (d w : Bytes) : Prop where
  found : s.found = false
  later : s.later = []
  all : s.taken.flatten ++ s.buffer.unread = w
  kept : d.LongestStart w s.buffer.unread

variable {d piece w : Bytes} {pieces : List Bytes}

theorem takeUntil_eq (b : Buffer) (d : Bytes) :
    b.takeUntil d =
      (b.peek (d.cut b.unread), (b.find? d).isSome, b.skip (d.cut b.unread)) := by
  unfold takeUntil find?
  cases h : Bytes.find? d b.unread with
  | some p => rw [Bytes.cut_of_some h]; rfl
  | none => rw [Bytes.cut_of_none h]; rfl

theorem isPrefix_of_takeUntil {b rest : Buffer} {token : Bytes}
    (h : b.takeUntil d = (token, true, rest)) : d <+: rest.unread := by
  rw [takeUntil_eq, Prod.mk.injEq, Prod.mk.injEq] at h
  obtain ⟨-, hsome, rfl⟩ := h
  obtain ⟨p, hp⟩ := Option.isSome_iff_exists.1 hsome
  rw [unread_skip, Bytes.cut_of_some hp]
  exact (Bytes.firstAt_of_find? hp).1

theorem takeUntil_write_realign {b : Buffer} (h : piece.length ≤ b.realign.writable) :
    ∃ rest, rest.unread = (b.unread ++ piece).drop (d.cut (b.unread ++ piece)) ∧
      (b.realign.write piece).takeUntil d =
        ((b.unread ++ piece).take (d.cut (b.unread ++ piece)),
          (Bytes.find? d (b.unread ++ piece)).isSome, rest) := by
  have hunread : (b.realign.write piece).unread = b.unread ++ piece := by
    rw [unread_write, unread_realign, List.take_of_length_le h]
  refine ⟨(b.realign.write piece).skip (d.cut (b.unread ++ piece)), ?_, ?_⟩
  · rw [unread_skip, hunread]
  · rw [takeUntil_eq, peek, find?, hunread]

theorem capacity_search (b : Buffer) (d : Bytes) (pieces : List Bytes) :
    (b.search d pieces).buffer.capacity = b.capacity := by
  induction pieces generalizing b with
  | nil => rfl
  | cons piece pieces ih =>
    have hstep := capacity_takeUntil (b.realign.write piece) d
    rw [capacity_write, capacity_realign] at hstep
    simp only [search]
    split <;> rename_i h <;> rw [h] at hstep
    · exact hstep
    · exact (ih _).trans hstep

theorem later_search_of_missing {b : Buffer} (h : (b.search d pieces).found = false) :
    (b.search d pieces).later = [] := by
  induction pieces generalizing b with
  | nil => rfl
  | cons piece pieces ih =>
    simp only [search] at h ⊢
    split at h
    · cases h
    · exact ih h

theorem isPrefix_of_search_found {b : Buffer} (h : (b.search d pieces).found = true) :
    d <+: (b.search d pieces).buffer.unread := by
  induction pieces generalizing b with
  | nil => cases h
  | cons piece pieces ih =>
    simp only [search] at h ⊢
    split
    · rename_i ht
      exact isPrefix_of_takeUntil ht
    · rename_i ht
      rw [ht] at h
      exact ih h

/-- A search in pieces finds and takes what one call on all the bytes would. The induction needs no
more of the tail that a call keeps than that the call before has seen it. -/
theorem search_eq {b : Buffer} (hnone : Bytes.find? d b.unread = none)
    (hcut : d.cut b.unread = 0) (hfit : b.Fits d pieces) :
    (b.search d pieces).found = (Bytes.find? d (b.unread ++ pieces.flatten)).isSome ∧
      (b.search d pieces).taken.flatten.length = d.cut (b.unread ++ pieces.flatten) ∧
      (b.search d pieces).taken.flatten ++
        ((b.search d pieces).buffer.unread ++ (b.search d pieces).later.flatten) =
          b.unread ++ pieces.flatten := by
  induction pieces generalizing b with
  | nil =>
    simp only [search, List.flatten_nil, List.append_nil, List.nil_append, List.length_nil,
      hnone, hcut, Option.isSome_none, and_self]
  | cons piece pieces ih =>
    obtain ⟨hroom, honward⟩ := hfit
    obtain ⟨rest, hrest, hstep⟩ := takeUntil_write_realign (d := d) hroom
    have hle := d.cut_le (b.unread ++ piece)
    have hsplit := List.take_append_drop (d.cut (b.unread ++ piece)) (b.unread ++ piece)
    rw [List.flatten_cons, ← List.append_assoc]
    simp only [search, hstep] at honward ⊢
    cases hfind : Bytes.find? d (b.unread ++ piece) with
    | some p =>
      rw [Bytes.find?_append_of_some _ hfind, Bytes.cut_append_of_some _ hfind]
      refine ⟨rfl, ?_, ?_⟩
      · simp only [Option.isSome_some, List.flatten_cons, List.flatten_nil, List.append_nil,
          List.length_take]
        omega
      · simp only [Option.isSome_some, List.flatten_cons, List.flatten_nil, List.append_nil, hrest]
        rw [← List.append_assoc, hsplit]
    | none =>
      rw [hfind] at honward
      -- what is kept is searched as if nothing had stood before it
      have hmissing : Bytes.find? d rest.unread = none := by
        rw [hrest]
        exact Bytes.find?_eq_none_iff.2 fun hc ↦
          Bytes.find?_eq_none_iff.1 hfind (hc.trans (List.drop_suffix _ _).isInfix)
      have hzero : d.cut rest.unread = 0 := by
        have h := Bytes.cut_append_of_none [] hfind
        rw [List.append_nil, List.append_nil, ← hrest] at h
        omega
      obtain ⟨hfound, hlength, hall⟩ := ih hmissing hzero honward
      rw [hrest] at hfound hlength hall
      rw [Bytes.find?_append_of_none _ hfind, Bytes.cut_append_of_none _ hfind, Option.isSome_map,
        ← Bytes.cut_of_none hfind]
      refine ⟨hfound, ?_, ?_⟩
      · simp only [Option.isSome_none, List.flatten_cons, List.length_append, List.length_take,
          hlength]
        rw [List.length_append] at hle
        omega
      · simp only [Option.isSome_none, List.flatten_cons, List.append_assoc] at hall ⊢
        rw [hall, ← List.append_assoc, hsplit, List.append_assoc]

theorem fits_of_short {b : Buffer} (hb : b.length < d.length)
    (h : ∀ piece ∈ pieces, piece.length + d.length ≤ b.capacity + 1) : b.Fits d pieces := by
  induction pieces generalizing b with
  | nil => trivial
  | cons piece pieces ih =>
    rw [List.forall_mem_cons] at h
    have hroom : piece.length ≤ b.realign.writable := by
      rw [writable_realign]
      omega
    have hcapacity := capacity_takeUntil (b.realign.write piece) d
    rw [capacity_write, capacity_realign] at hcapacity
    obtain ⟨rest, hrest, hstep⟩ := takeUntil_write_realign (d := d) hroom
    refine ⟨hroom, ?_⟩
    rw [hstep] at hcapacity ⊢
    cases hfind : Bytes.find? d (b.unread ++ piece) with
    | some p => trivial
    | none =>
      refine ih ?_ (hcapacity.symm ▸ h.2)
      rw [length, hrest, Bytes.cut_of_none hfind]
      exact (Bytes.longestStart_drop_overlapFrom (Bytes.find?_eq_none_iff.1 hfind)).length_lt

theorem writable_realign_pos {b : Buffer} (hc : d.length ≤ b.capacity)
    (h : d.LongestStart w b.unread) : 0 < b.realign.writable := by
  have hlt := h.length_lt
  rw [writable_realign, length]
  omega

/-- Searching for a delimiter in pieces: however the whole is cut, the search stops at the first
occurrence, and where there is none it has let go of everything that cannot begin one. -/
theorem search_spec {b : Buffer} (hd : d ≠ []) (hempty : b.unread = [])
    (hc : d.length ≤ b.capacity) (hfit : b.Fits d pieces) :
    (d <:+: pieces.flatten ∧ (b.search d pieces).Reaches d pieces.flatten) ∨
      (¬d <:+: pieces.flatten ∧ (b.search d pieces).Misses d pieces.flatten ∧
        0 < (b.search d pieces).buffer.realign.writable) := by
  have hnone : Bytes.find? d b.unread = none := by simp [hempty, Bytes.find?, Bytes.findFrom, hd]
  have hcut : d.cut b.unread = 0 := by
    have h := d.cut_le b.unread
    rw [hempty] at h ⊢
    exact Nat.le_zero.1 h
  obtain ⟨hfound, hlength, hall⟩ := search_eq hnone hcut hfit
  rw [hempty, List.nil_append] at hfound hlength hall
  cases hp : Bytes.find? d pieces.flatten with
  | some p =>
    rw [hp, Option.isSome_some] at hfound
    rw [Bytes.cut_of_some hp] at hlength
    have hat := Bytes.firstAt_of_find? hp
    refine .inl ⟨hat.1.isInfix.trans (List.drop_suffix _ _).isInfix, hfound, hlength ▸ hat,
      isPrefix_of_search_found hfound, hall⟩
  | none =>
    have hmissing := Bytes.find?_eq_none_iff.1 hp
    rw [hp, Option.isSome_none] at hfound
    rw [Bytes.cut_of_none hp] at hlength
    rw [later_search_of_missing hfound, List.flatten_nil, List.append_nil] at hall
    have hkept : d.LongestStart pieces.flatten (b.search d pieces).buffer.unread := by
      have h := Bytes.longestStart_drop_overlapFrom hmissing
      rwa [← hlength, ← hall, List.drop_left, hall] at h
    exact .inr ⟨hmissing, ⟨hfound, later_search_of_missing hfound, hall, hkept⟩,
      writable_realign_pos ((capacity_search b d pieces).symm ▸ hc) hkept⟩

def doubled : Bytes := [97, 97, 98]

def broken : List Bytes := [[97, 97], [97], [99, 97], [97], [98, 100], [120]]

theorem search_spec_broken :
    ((ofCapacity 4).search doubled broken).Reaches doubled broken.flatten ∧
      ((ofCapacity 4).search doubled broken).taken = [[], [97], [97, 97, 99], [], []] := by
  have hfit : (ofCapacity 4).Fits doubled broken := fits_of_short (by decide) (by decide)
  have h := search_spec (by decide : doubled ≠ []) (rfl : (ofCapacity 4).unread = []) (by decide)
    hfit
  exact ⟨(h.resolve_right fun hn ↦ hn.1 (by decide)).2, by decide⟩

end Buffer

end LocalHttp
