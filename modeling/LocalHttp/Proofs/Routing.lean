import LocalHttp.Proofs.Fields
import LocalHttp.Service

namespace LocalHttp

namespace Dictionary

variable {α : Type}

theorem get?_foldl_insert (key : String → String) (value : α) (names : List String)
    (d : Dictionary α) (other : String) :
    (names.foldl (fun d name ↦ d.insert (key name) value) d).get? other =
      if names.any (fun name ↦ key name = other) then some value else d.get? other := by
  induction names generalizing d with
  | nil => rfl
  | cons name rest ih =>
    rw [List.foldl_cons, ih, get?_insert, List.any_cons]
    by_cases hn : key name = other
    · simp [hn]
    · simp [hn]

end Dictionary

namespace Routes

variable {H : Type}

theorem routeKey_eq {route : String} (h : route.toList.map Char.toLower = route.toList) :
    routeKey route = route := toLower_eq_iff.2 h

theorem methodKey_eq {method : String} (h : method.toList.map Char.toUpper = method.toList) :
    methodKey method = method := String.toList_inj.1 (String.toList_map.trans h)

def handler? (r : Routes H) (route method : String) : Option H :=
  (r.methods? route).bind fun methods ↦ methods.get? (methodKey method)

theorem find_eq_handler_iff {r : Routes H} {route method : String} {handler : H} :
    r.find route method = .handler handler ↔ r.handler? route method = some handler := by
  unfold find handler?
  cases r.methods? route with
  | none => simp
  | some methods =>
    dsimp only [Option.bind_some]
    cases methods.get? (methodKey method) with
    | none => simp
    | some found => simp

theorem methods?_add (r : Routes H) (route : String) (methods : List String) (handler : H)
    (other : String) :
    (r.add route methods handler).methods? other =
      if routeKey route = routeKey other then
        some (methods.foldl (fun d m ↦ d.insert (methodKey m) handler)
          ((r.methods? route).getD []))
      else r.methods? other :=
  Dictionary.get?_insert _ _ _ _

/-- Registering answers for the route and the methods that it names, and for nothing else. -/
theorem handler?_add (r : Routes H) (route : String) (methods : List String) (handler : H)
    (other method : String) :
    (r.add route methods handler).handler? other method =
      if routeKey route = routeKey other ∧ methods.any (fun m ↦ methodKey m = methodKey method) then
        some handler
      else r.handler? other method := by
  rw [handler?, methods?_add]
  by_cases hr : routeKey route = routeKey other
  · have hsame : r.methods? route = r.methods? other := by
      rw [methods?, methods?, hr]
    rw [if_pos hr, Option.bind_some, Dictionary.get?_foldl_insert, hsame, handler?]
    cases r.methods? other with
    | none => simp [hr, Dictionary.get?]
    | some before => simp [hr]
  · simp [hr, handler?]

end Routes

def Request.Asks (r : Request) (method route : String) : Prop :=
  Routes.routeKey route = Routes.routeKey r.resource ∧
    Routes.methodKey method = Routes.methodKey r.method

instance (r : Request) (method route : String) : Decidable (r.Asks method route) :=
  inferInstanceAs (Decidable (_ ∧ _))

theorem Request.Asks.not_asks {r : Request} {method route other path : String}
    (h : r.Asks method route)
    (hne : Routes.routeKey path ≠ Routes.routeKey route ∨
      Routes.methodKey other ≠ Routes.methodKey method) : ¬r.Asks other path := by
  intro ho
  rcases hne with hne | hne
  · exact hne (ho.1.trans h.1.symm)
  · exact hne (ho.2.trans h.2.symm)

theorem Routes.handler?_add_one {H : Type} (t : Routes H) (route method : String) (handler : H)
    (r : Request) :
    (t.add route [method] handler).handler? r.resource r.method =
      if r.Asks method route then some handler else t.handler? r.resource r.method := by
  rw [handler?_add]
  by_cases ha : r.Asks method route
  · rw [if_pos ha, if_pos ⟨ha.1, by simpa using ha.2⟩]
  · rw [if_neg ha, if_neg]
    rintro ⟨hroute, hmethod⟩
    exact ha ⟨hroute, by simpa using hmethod⟩

namespace Service

variable {σ : Type}

theorem status_decorate (s : Service σ) (r : Response) : (s.decorate r).status = r.status := by
  unfold decorate
  cases s.serverHeader with
  | none => rfl
  | some server => rfl

theorem dispatch_of_handler {s : Service σ} {request : Request} {handler : Handler σ}
    (h : s.routes.handler? request.resource request.method = some handler) (state : σ) :
    s.dispatch request state =
      (s.decorate (handler request state).1.toResponse, (handler request state).2) := by
  rw [dispatch, respond, Routes.find_eq_handler_iff.2 h]

/-- Without a handler the answer says what is missing, and nothing is touched. -/
theorem dispatch_of_none {s : Service σ} {request : Request}
    (h : s.routes.handler? request.resource request.method = none) (state : σ) :
    ((s.dispatch request state).1.status = .notFound ∨
        (s.dispatch request state).1.status = .methodNotAllowed) ∧
      (s.dispatch request state).2 = state := by
  simp only [dispatch, status_decorate]
  unfold respond
  cases hf : s.routes.find request.resource request.method with
  | notFound => exact ⟨.inl rfl, rfl⟩
  | methodNotAllowed allowed => exact ⟨.inr rfl, rfl⟩
  | handler handler =>
    rw [Routes.find_eq_handler_iff.1 hf] at h
    cases h

def dispatchAll (s : Service σ) : List Request → σ → List (Request × Response) × σ
  | [], state => ([], state)
  | request :: rest, state =>
    let (response, state) := s.dispatch request state
    let (exchanges, last) := s.dispatchAll rest state
    ((request, response) :: exchanges, last)

end Service

end LocalHttp
