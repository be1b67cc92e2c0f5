import LocalHttp.Proofs.Routing
import LocalHttp.Proofs.TextOrder
import Mathlib.Data.List.Forall2
import Mathlib.Data.List.Induction
import Mathlib.Data.List.Sort

namespace LocalHttp

open Text (SameWord)

namespace Dictionary

variable {α : Type} {d : Dictionary α} {key name : String} {value : α}

theorem mem_keys_insert : name ∈ keys (insert key value d) ↔ name = key ∨ name ∈ keys d := by
  induction d with
  | nil => simp [insert, keys]
  | cons e rest ih =>
    obtain ⟨other, v⟩ := e
    simp only [keys, List.map_cons, List.mem_cons] at ih ⊢
    unfold insert
    split
    · simp
    · split
      · rename_i he
        simp [he]
      · rw [List.map_cons, List.mem_cons, ih, or_left_comm]

theorem pairwise_keys_insert (h : (keys d).Pairwise (· < ·)) :
    (keys (insert key value d)).Pairwise (· < ·) := by
  induction d with
  | nil => exact List.pairwise_singleton _ _
  | cons e rest ih =>
    obtain ⟨other, v⟩ := e
    have hcons : (∀ name ∈ keys rest, other < name) ∧ (keys rest).Pairwise (· < ·) :=
      List.pairwise_cons.1 h
    unfold insert
    split
    · rename_i hlt
      refine List.pairwise_cons.2 ⟨fun name hn ↦ ?_, h⟩
      rcases List.mem_cons.1 hn with rfl | hn
      · exact hlt
      · exact String.lt_trans hlt (hcons.1 name hn)
    · split
      · rename_i he
        exact he ▸ h
      · rename_i hle hne
        refine List.pairwise_cons.2 ⟨fun name hn ↦ ?_, ih hcons.2⟩
        rcases mem_keys_insert.1 hn with rfl | hn
        · exact lt_of_le_of_ne (String.not_lt.1 hle) (Ne.symm hne)
        · exact hcons.1 name hn

theorem mem_keys_foldl_insert (word : String → String) (words : List String) :
    name ∈ keys (words.foldl (fun d w ↦ d.insert (word w) value) d) ↔
      name ∈ keys d ∨ ∃ w ∈ words, word w = name := by
  induction words generalizing d with
  | nil => simp
  | cons w words ih =>
    simp only [List.foldl_cons, ih, mem_keys_insert, List.mem_cons, or_and_right, exists_or,
      exists_eq_left]
    rw [eq_comm, or_assoc, or_left_comm]

theorem pairwise_keys_foldl_insert (word : String → String) (words : List String)
    (h : (keys d).Pairwise (· < ·)) :
    (keys (words.foldl (fun d w ↦ d.insert (word w) value) d)).Pairwise (· < ·) := by
  induction words generalizing d with
  | nil => exact h
  | cons w words ih => exact ih (pairwise_keys_insert h)

end Dictionary

/-- One call that registers a handler for some methods of a route. -/
structure Registration (H : Type) where
  route : String
  methods : List String
  handler : H

namespace Registration

variable {H : Type}

def IsAt (g : Registration H) (route : String) : Prop := SameWord g.route route

def Names (g : Registration H) (method : String) : Prop := ∃ m ∈ g.methods, SameWord m method

instance (g : Registration H) (route : String) : Decidable (g.IsAt route) :=
  inferInstanceAs (Decidable (SameWord _ _))

instance (g : Registration H) (method : String) : Decidable (g.Names method) :=
  inferInstanceAs (Decidable (∃ m ∈ g.methods, SameWord m method))

/-- The handler that was registered last for a method of a route. -/
def last? (gs : List (Registration H)) (route method : String) : Option H :=
  (gs.filter fun g ↦ g.IsAt route ∧ g.Names method).getLast?.map (·.handler)

/-- All methods that were registered for a route, in capitals, in the order of their bytes and each
once. -/
structure Offers (gs : List (Registration H)) (route : String) (methods : List String) : Prop where
  sorted : methods.Pairwise fun a b ↦ Bytes.ofText a < Bytes.ofText b
  mem_iff : ∀ name, name ∈ methods ↔ ∃ g ∈ gs, g.IsAt route ∧ ∃ m ∈ g.methods, m.toUpper = name

structure Same (g g' : Registration H) : Prop where
  route : SameWord g.route g'.route
  methods : List.Forall₂ SameWord g.methods g'.methods
  handler : g.handler = g'.handler

theorem Offers.unique {gs : List (Registration H)} {route : String} {methods others : List String}
    (h : Offers gs route methods) (h' : Offers gs route others) : methods = others := by
  have hirr : Std.Irrefl fun a b : String ↦ Bytes.ofText a < Bytes.ofText b :=
    ⟨fun _ ↦ List.lt_irrefl _⟩
  have hasym : Std.Asymm fun a b : String ↦ Bytes.ofText a < Bytes.ofText b :=
    ⟨fun _ _ ↦ List.lt_asymm⟩
  exact h.sorted.eq_of_mem_iff h'.sorted fun name ↦ (h.mem_iff name).trans (h'.mem_iff name).symm

end Registration

namespace Routes

variable {H : Type} {gs : List (Registration H)} {route method : String}

open Registration (Offers Same last?)

def ofRegistrations (gs : List (Registration H)) : Routes H :=
  gs.foldl (fun r g ↦ r.add g.route g.methods g.handler) empty

theorem ofRegistrations_append (gs : List (Registration H)) (g : Registration H) :
    ofRegistrations (gs ++ [g]) = (ofRegistrations gs).add g.route g.methods g.handler := by
  rw [ofRegistrations, List.foldl_append]
  rfl

theorem methodKey_eq_iff {a b : String} : methodKey a = methodKey b ↔ SameWord a b :=
  Text.toUpper_eq_iff

theorem any_methodKey_iff {g : Registration H} :
    (g.methods.any fun m ↦ methodKey m = methodKey method) = true ↔ g.Names method := by
  simp only [List.any_eq_true, decide_eq_true_eq, methodKey_eq_iff]
  rfl

theorem handler?_ofRegistrations (gs : List (Registration H)) (route method : String) :
    (ofRegistrations gs).handler? route method = last? gs route method := by
  induction gs using List.reverseRecOn with
  | nil => rfl
  | append_singleton gs g ih =>
    rw [ofRegistrations_append, handler?_add, ih, last?, last?, List.filter_append]
    by_cases h : g.IsAt route ∧ g.Names method
    · rw [if_pos ⟨h.1, any_methodKey_iff.2 h.2⟩]
      simp [h]
    · rw [if_neg fun hk ↦ h ⟨hk.1, any_methodKey_iff.1 hk.2⟩]
      simp [h]

inductive Has (gs : List (Registration H)) (route : String) : Option (Dictionary H) → Prop
  | unknown : (∀ g ∈ gs, ¬g.IsAt route) → Has gs route none
  | known {d : Dictionary H} : (∃ g ∈ gs, g.IsAt route) → d.keys.Pairwise (· < ·) →
    (∀ name, name ∈ d.keys ↔ ∃ g ∈ gs, g.IsAt route ∧ ∃ m ∈ g.methods, methodKey m = name) →
    Has gs route (some d)

theorem Has.append {before : Option (Dictionary H)} (h : Has gs route before)
    (g : Registration H) (hg : g.IsAt route) :
    Has (gs ++ [g]) route (some
      (g.methods.foldl (fun d m ↦ d.insert (methodKey m) g.handler) (before.getD []))) := by
  have hsorted : (before.getD []).keys.Pairwise (· < ·) := by
    cases h with
    | unknown => exact .nil
    | known _ hs _ => exact hs
  refine .known ⟨g, by simp, hg⟩ (Dictionary.pairwise_keys_foldl_insert _ _ hsorted) fun name ↦ ?_
  have hbefore : name ∈ (before.getD []).keys ↔
      ∃ g ∈ gs, g.IsAt route ∧ ∃ m ∈ g.methods, methodKey m = name := by
    cases h with
    | unknown hn => exact ⟨nofun, fun ⟨g, hg, ha, _⟩ ↦ absurd ha (hn g hg)⟩
    | known _ _ hm => exact hm name
  rw [Dictionary.mem_keys_foldl_insert, hbefore]
  simp only [List.mem_append, List.mem_singleton, or_and_right, exists_or, exists_eq_left, hg,
    true_and]

theorem Has.skip {found : Option (Dictionary H)} (h : Has gs route found) (g : Registration H)
    (hg : ¬g.IsAt route) : Has (gs ++ [g]) route found := by
  have hiff (P : Registration H → Prop) :
      (∃ g' ∈ gs ++ [g], g'.IsAt route ∧ P g') ↔ ∃ g' ∈ gs, g'.IsAt route ∧ P g' := by
    simp only [List.mem_append, List.mem_singleton, or_and_right, exists_or, exists_eq_left, hg,
      false_and, or_false]
  cases h with
  | unknown hn =>
    refine .unknown fun g' hm ↦ ?_
    rcases List.mem_append.1 hm with hm | hm
    · exact hn g' hm
    · exact List.mem_singleton.1 hm ▸ hg
  | known he hs hm =>
    obtain ⟨g', hg', ha⟩ := he
    exact .known ⟨g', List.mem_append_left _ hg', ha⟩ hs fun name ↦ (hm name).trans (hiff _).symm

theorem has_ofRegistrations (gs : List (Registration H)) (route : String) :
    Has gs route ((ofRegistrations gs).methods? route) := by
  induction gs using List.reverseRecOn with
  | nil => exact .unknown nofun
  | append_singleton gs g ih =>
    rw [ofRegistrations_append, methods?_add]
    split
    · rename_i hr
      have hsame : (ofRegistrations gs).methods? g.route = (ofRegistrations gs).methods? route := by
        rw [methods?, methods?, hr]
      rw [hsame]
      exact ih.append g hr
    · rename_i hr
      exact ih.skip g hr

theorem Has.offers {d : Dictionary H} (h : Has gs route (some d)) :
    (∃ g ∈ gs, g.IsAt route) ∧ Offers gs route d.keys := by
  cases h with
  | known he hs hm => exact ⟨he, hs.imp fun h ↦ Bytes.ofText_lt_ofText_iff.2 h, hm⟩

theorem last?_eq_none_iff : last? gs route method = none ↔
    ∀ g ∈ gs, g.IsAt route → ¬g.Names method := by
  rw [last?, Option.map_eq_none_iff, List.getLast?_eq_none_iff, List.filter_eq_nil_iff]
  simp only [decide_eq_true_eq, not_and]

/-- What is to be answered for a method of a route after these registrations. -/
inductive Answers (gs : List (Registration H)) (route method : String) : Found H → Prop
  | notFound : (∀ g ∈ gs, ¬g.IsAt route) → Answers gs route method .notFound
  | methodNotAllowed {methods : List String} : (∃ g ∈ gs, g.IsAt route) →
    (∀ g ∈ gs, g.IsAt route → ¬g.Names method) → Offers gs route methods →
    Answers gs route method (.methodNotAllowed methods)
  | handler {handler : H} : last? gs route method = some handler →
    Answers gs route method (.handler handler)

theorem exists_of_last? {handler : H} (h : last? gs route method = some handler) :
    ∃ g ∈ gs, g.IsAt route ∧ g.Names method := by
  by_contra hno
  have hnone : last? gs route method = none :=
    last?_eq_none_iff.2 fun g hg ha hm ↦ hno ⟨g, hg, ha, hm⟩
  cases hnone.symm.trans h

/-- The three answers exclude each other, and each is told in full. -/
theorem Answers.unique {found other : Found H} (h : Answers gs route method found)
    (h' : Answers gs route method other) : found = other := by
  cases h with
  | notFound hn =>
    cases h' with
    | notFound => rfl
    | methodNotAllowed he =>
      obtain ⟨g, hg, ha⟩ := he
      exact absurd ha (hn g hg)
    | handler hl =>
      obtain ⟨g, hg, ha, -⟩ := exists_of_last? hl
      exact absurd ha (hn g hg)
  | methodNotAllowed he hm ho =>
    cases h' with
    | notFound hn =>
      obtain ⟨g, hg, ha⟩ := he
      exact absurd ha (hn g hg)
    | methodNotAllowed _ _ ho' => rw [ho.unique ho']
    | handler hl => cases (last?_eq_none_iff.2 hm).symm.trans hl
  | handler hl =>
    cases h' with
    | notFound hn =>
      obtain ⟨g, hg, ha, -⟩ := exists_of_last? hl
      exact absurd ha (hn g hg)
    | methodNotAllowed _ hm => cases (last?_eq_none_iff.2 hm).symm.trans hl
    | handler hl' => rw [Option.some.inj (hl.symm.trans hl')]

theorem answers_find (gs : List (Registration H)) (route method : String) :
    Answers gs route method ((ofRegistrations gs).find route method) := by
  have hlast := handler?_ofRegistrations gs route method
  have hhas := has_ofRegistrations gs route
  rw [handler?] at hlast
  unfold find
  cases hm : (ofRegistrations gs).methods? route with
  | none =>
    rw [hm] at hhas
    cases hhas with
    | unknown hn => exact .notFound hn
  | some d =>
    rw [hm] at hhas hlast
    rw [Option.bind_some] at hlast
    obtain ⟨he, ho⟩ := hhas.offers
    cases hg : d.get? (methodKey method) with
    | none =>
      dsimp only
      rw [hg]
      exact .methodNotAllowed he (last?_eq_none_iff.1 (hlast.symm.trans hg)) ho
    | some handler =>
      dsimp only
      rw [hg]
      exact .handler (hlast.symm.trans hg)

theorem add_congr {g g' : Registration H} (h : g.Same g') (r : Routes H) :
    r.add g.route g.methods g.handler = r.add g'.route g'.methods g'.handler := by
  have hr : routeKey g.route = routeKey g'.route := h.route
  have hm : List.Forall₂ (· = ·) (g.methods.map methodKey) (g'.methods.map methodKey) := by
    rw [List.forall₂_map_left_iff, List.forall₂_map_right_iff]
    exact h.methods.imp fun _ _ ↦ methodKey_eq_iff.2
  rw [List.forall₂_eq_eq_eq] at hm
  have hfold (d : Dictionary H) :
      g.methods.foldl (fun d m ↦ d.insert (methodKey m) g.handler) d =
        g'.methods.foldl (fun d m ↦ d.insert (methodKey m) g'.handler) d := by
    rw [← List.foldl_map (g := fun d key ↦ Dictionary.insert key g.handler d), hm, List.foldl_map,
      h.handler]
  rw [add, add, methods?, methods?, hr, hfold]

theorem ofRegistrations_congr {gs gs' : List (Registration H)} (h : List.Forall₂ Same gs gs') :
    ofRegistrations gs = ofRegistrations gs' := by
  unfold ofRegistrations
  generalize (empty : Routes H) = r
  induction h generalizing r with
  | nil => rfl
  | cons hg _ ih => rw [List.foldl_cons, List.foldl_cons, add_congr hg, ih]

theorem find_congr (r : Routes H) {route route' method method' : String}
    (hr : SameWord route route') (hm : SameWord method method') :
    r.find route' method' = r.find route method := by
  have hroute : routeKey route' = routeKey route := hr.symm
  rw [find, find, methods?, methods?, hroute, methodKey_eq_iff.2 hm.symm]

theorem hasRoute_iff {r : Routes H} :
    r.hasRoute route = true ↔ r.find route method ≠ .notFound := by
  unfold hasRoute find
  cases r.methods? route with
  | none => simp
  | some d =>
    dsimp only
    cases d.get? (methodKey method) with
    | none => simp
    | some handler => simp

theorem hasMethod_iff {r : Routes H} :
    r.hasMethod route method = true ↔ ∃ handler, r.find route method = .handler handler := by
  simp only [find_eq_handler_iff]
  exact Option.isSome_iff_exists

/-- After any registrations a table answers with the handler that was registered last for the route
and the method, where there is none with all methods of the route, and where the route was never
registered with nothing. The case of ASCII letters counts neither in a request nor in a
registration. -/
theorem find_answers_registrations (gs : List (Registration H)) (route method : String) :
    (∀ found, (ofRegistrations gs).find route method = found ↔ Answers gs route method found) ∧
    (∀ (gs' : List (Registration H)) (route' method' : String), List.Forall₂ Same gs gs' →
      SameWord route route' → SameWord method method' →
      (ofRegistrations gs').find route' method' = (ofRegistrations gs).find route method) ∧
    ((ofRegistrations gs).hasMethod route method = true ↔
      ∃ handler, (ofRegistrations gs).find route method = .handler handler) ∧
    ((ofRegistrations gs).hasRoute route = true ↔
      (ofRegistrations gs).find route method ≠ .notFound) := by
  have hanswers := answers_find gs route method
  refine ⟨fun found ↦ ⟨fun h ↦ h ▸ hanswers, hanswers.unique⟩, ?_, hasMethod_iff, hasRoute_iff⟩
  intro gs' route' method' hgs hr hm
  rw [← ofRegistrations_congr hgs]
  exact find_congr (ofRegistrations gs) hr hm

def spoken : List (Registration Nat) := [⟨"/fän", ["get", "post"], 1⟩, ⟨"/Fän", ["Get"], 2⟩]

def shouted : List (Registration Nat) := [⟨"/FäN", ["GET", "POST"], 1⟩, ⟨"/FäN", ["GET"], 2⟩]

theorem find_answers_registrations_shouted :
    List.Forall₂ Same spoken shouted ∧ SameWord "/fän" "/FäN" ∧ SameWord "get" "geT" ∧
      (ofRegistrations shouted).find "/FäN" "geT" = (ofRegistrations spoken).find "/fän" "get" := by
  have hr : SameWord "/fän" "/FäN" := by decide
  have hm : SameWord "get" "geT" := by decide
  have hgs : List.Forall₂ Same spoken shouted :=
    .cons ⟨by decide, .cons (by decide) (.cons (by decide) .nil), rfl⟩
      (.cons ⟨by decide, .cons (by decide) .nil, rfl⟩ .nil)
  exact ⟨hgs, hr, hm,
    (find_answers_registrations spoken "/fän" "get").2.1 shouted "/FäN" "geT" hgs hr hm⟩

end Routes

end LocalHttp
