import LocalHttp.Machine

namespace LocalHttp

namespace FileTree

theorem exists?_remove {t after : FileTree} {path : List String} (h : t.remove path = .ok after) :
    after.exists? path = false := by
  unfold remove at h
  cases hf : t.find path with
  | error errno => rw [hf] at h; cases h
  | ok node =>
    have hpath : path.isEmpty = false := by
      cases path with
      | nil =>
        cases hf
        cases h
      | cons name rest => rfl
    have hnone : (t.nodes.filter fun node ↦ node.1 ≠ path).find? (fun node ↦ node.1 = path) =
        none := by
      simp
    have hafter : after = ⟨t.nodes.filter fun node ↦ node.1 ≠ path⟩ := by
      rw [hf] at h
      cases node <;> cases h <;> rfl
    unfold exists? find
    rw [hafter, node?, hpath, if_neg Bool.false_ne_true, hnone]
    cases checkParent _ path <;> rfl

end FileTree

namespace Network

theorem get_modify (n : Network) (d e : Descriptor) (f : Endpoint → Endpoint) :
    (n.modify d f).get e =
      ((if d = e then n.endpoints[e]?.map f else n.endpoints[e]?)).getD closedEndpoint := by
  rw [get, modify, Array.getD_eq_getD_getElem?, Array.getElem?_modify]

theorem get_eq (n : Network) (d : Descriptor) : n.get d = n.endpoints[d]?.getD closedEndpoint :=
  Array.getD_eq_getD_getElem?

/-- What closing comes to: nothing is opened, and the files stay as they are. -/
structure Shrinks (n after : Network) : Prop where
  isOpen : ∀ d, (n.get d).isOpen = false → (after.get d).isOpen = false
  files : after.files = n.files

theorem Shrinks.refl (n : Network) : n.Shrinks n := ⟨fun _ h ↦ h, rfl⟩

theorem Shrinks.trans {n mid after : Network} (h : n.Shrinks mid) (h' : mid.Shrinks after) :
    n.Shrinks after := ⟨fun d hd ↦ h'.isOpen d (h.isOpen d hd), h'.files.trans h.files⟩

theorem shrinks_modify (n : Network) (d : Descriptor) {f : Endpoint → Endpoint}
    (hf : ∀ e : Endpoint, e.isOpen = false → (f e).isOpen = false) : n.Shrinks (n.modify d f) := by
  refine ⟨fun e he ↦ ?_, rfl⟩
  rw [get_eq] at he
  rw [get_modify]
  split
  · cases hn : n.endpoints[e]? with
    | none => rfl
    | some endpoint =>
      rw [hn] at he
      exact hf endpoint he
  · exact he

theorem shrinks_foldl {α : Type} {f : Network → α → Network} (hf : ∀ n a, Shrinks n (f n a))
    (as : List α) (n : Network) : n.Shrinks (as.foldl f n) := by
  induction as generalizing n with
  | nil => exact .refl n
  | cons a as ih => exact (hf n a).trans (ih (f n a))

def shut (n : Network) (d : Descriptor) : Network := n.modify d fun e ↦ { e with isOpen := false }

theorem shrinks_shut (n : Network) (d : Descriptor) : n.Shrinks (n.shut d) :=
  n.shrinks_modify d fun _ _ ↦ rfl

theorem not_isOpen_shut (n : Network) (d : Descriptor) : ((n.shut d).get d).isOpen = false := by
  rw [shut, get_modify, if_pos rfl]
  cases n.endpoints[d]? <;> rfl

theorem shrinks_peerGone (n : Network) (d : Descriptor) (unread : Bool) :
    n.Shrinks (n.peerGone d unread) := n.shrinks_modify d fun _ h ↦ h

/-- What closing does besides is to tell the other ends. -/
theorem shrinks_close_of_shut {n : Network} {d : Descriptor} (h : (n.get d).isOpen = true) :
    (n.shut d).Shrinks (n.close d) := by
  unfold close
  dsimp only
  rw [h, Bool.not_true, if_neg Bool.false_ne_true, ← shut]
  split
  · exact shrinks_peerGone _ _ _
  · exact shrinks_peerGone _ _ _
  · refine shrinks_foldl (fun n w ↦ (n.shrinks_shut w).trans ?_) _ _
    rw [← shut]
    split
    · exact shrinks_peerGone _ _ _
    · exact .refl _
  · exact .refl _
  · exact .refl _

theorem close_of_not_open {n : Network} {d : Descriptor} (h : (n.get d).isOpen = false) :
    n.close d = n := by
  rw [close, h]
  rfl

theorem shrinks_close (n : Network) (d : Descriptor) : n.Shrinks (n.close d) := by
  cases h : (n.get d).isOpen with
  | true => exact (n.shrinks_shut d).trans (shrinks_close_of_shut h)
  | false =>
    rw [close_of_not_open h]
    exact .refl n

theorem not_isOpen_close (n : Network) (d : Descriptor) : ((n.close d).get d).isOpen = false := by
  cases h : (n.get d).isOpen with
  | true => exact (shrinks_close_of_shut h).isOpen d (n.not_isOpen_shut d)
  | false => rwa [close_of_not_open h]

theorem shrinks_foldl_close (ds : List Descriptor) (n : Network) : n.Shrinks (ds.foldl close n) :=
  shrinks_foldl shrinks_close ds n

theorem not_isOpen_foldl_close {ds : List Descriptor} (n : Network) {d : Descriptor} (hd : d ∈ ds) :
    ((ds.foldl close n).get d).isOpen = false := by
  induction ds generalizing n with
  | nil => cases hd
  | cons first rest ih =>
    rw [List.foldl_cons]
    rcases List.mem_cons.1 hd with rfl | hd
    · exact (shrinks_foldl_close rest _).isOpen d (n.not_isOpen_close d)
    · exact ih _ hd

end Network

namespace Machine

variable {σ : Type}

/-- Everything that a departing server had is closed, and its path is gone, if it can be removed. -/
theorem closed_afterDeparture (n : Network) (d : Server.Departure σ) :
    (∀ e ∈ d.closed, ((afterDeparture n d).get e).isOpen = false) ∧
      ((afterDeparture n d).files.exists? (FileTree.names d.path) = false ∨
        ∃ errno, n.files.remove (FileTree.names d.path) = .error errno ∧
          (afterDeparture n d).files = n.files) := by
  have hfiles := (Network.shrinks_foldl_close d.closed n).files
  have hclosed {e : Descriptor} (he : e ∈ d.closed) := Network.not_isOpen_foldl_close n he
  unfold afterDeparture
  dsimp only
  rw [hfiles]
  cases hr : n.files.remove (FileTree.names d.path) with
  | error errno => exact ⟨fun e he ↦ hclosed he, .inr ⟨errno, rfl, hfiles⟩⟩
  | ok files => exact ⟨fun e he ↦ hclosed he, .inl (FileTree.exists?_remove hr)⟩

end Machine

end LocalHttp
