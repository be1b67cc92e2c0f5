import LocalHttp.Proofs.Dispatch
import LocalHttp.Proofs.Routing
import LocalHttp.Proofs.SettingsText

namespace LocalHttp.Cooling

open Routes (routeKey methodKey)

theorem get_ne_post : methodKey "GET" ≠ methodKey "POST" := by
  rw [Routes.methodKey_eq (by decide), Routes.methodKey_eq (by decide)]
  decide

theorem routeKey_ne {route other : String} (h : route.toList.map Char.toLower = route.toList)
    (ho : other.toList.map Char.toLower = other.toList) (hne : route ≠ other) :
    routeKey route ≠ routeKey other := by
  rw [Routes.routeKey_eq h, Routes.routeKey_eq ho]
  exact hne

section Handlers

variable {r : Request}

theorem not_asks_get {route other : String} (h : r.Asks "POST" route) : ¬r.Asks "GET" other :=
  h.not_asks (.inr get_ne_post)

theorem not_asks_post {route other : String} (h : r.Asks "GET" route) : ¬r.Asks "POST" other :=
  h.not_asks (.inr get_ne_post.symm)

theorem pump_ne_fans : routeKey "/pump" ≠ routeKey "/fans" :=
  routeKey_ne (by decide) (by decide) (by decide)

theorem handler?_of_post_pump (h : r.Asks "POST" "/pump") :
    endpoints.handler? r.resource r.method = some (writing readPumpSettings applyPump) := by
  have hget {route : String} : ¬r.Asks "GET" route := not_asks_get h
  have hfans : ¬r.Asks "POST" "/fans" := h.not_asks (.inl pump_ne_fans.symm)
  simp only [endpoints, Routes.handler?_add_one, if_neg hget, if_neg hfans, if_pos h]

theorem handler?_of_post_fans (h : r.Asks "POST" "/fans") :
    endpoints.handler? r.resource r.method = some (writing readFanSettings applyFans) := by
  have hget {route : String} : ¬r.Asks "GET" route := not_asks_get h
  simp only [endpoints, Routes.handler?_add_one, if_neg hget, if_pos h]

theorem handler?_of_get_fans (h : r.Asks "GET" "/fans") :
    endpoints.handler? r.resource r.method = some (reading fansJson) := by
  have hfirmware : ¬r.Asks "GET" "/firmware" :=
    h.not_asks (.inl (routeKey_ne (by decide) (by decide) (by decide)))
  have htemperature : ¬r.Asks "GET" "/temperature" :=
    h.not_asks (.inl (routeKey_ne (by decide) (by decide) (by decide)))
  have hpost : ¬r.Asks "POST" "/fans" := not_asks_post h
  simp only [endpoints, Routes.handler?_add_one, if_neg hfirmware, if_neg htemperature,
    if_neg hpost, if_pos h]

def Looks (handler? : Option (Handler SharedCooler)) : Prop :=
  handler? = none ∨ ∃ view, handler? = some (reading view)

theorem Looks.add {t : Routes (Handler SharedCooler)} {method route : String}
    {handler : Handler SharedCooler} (h : Looks (t.handler? r.resource r.method))
    (hadded : r.Asks method route → Looks (some handler)) :
    Looks ((t.add route [method] handler).handler? r.resource r.method) := by
  rw [Routes.handler?_add_one]
  split
  · rename_i hasks
    exact hadded hasks
  · exact h

theorem looks_of_not_post (hpump : ¬r.Asks "POST" "/pump") (hfans : ¬r.Asks "POST" "/fans") :
    Looks (endpoints.handler? r.resource r.method) := by
  have hreading (view : Cooler → Json.Value) : Looks (some (reading view)) := .inr ⟨view, rfl⟩
  unfold endpoints
  apply Looks.add _ fun _ ↦ hreading firmwareJson
  apply Looks.add _ fun _ ↦ hreading temperatureJson
  apply Looks.add _ fun h ↦ absurd h hfans
  apply Looks.add _ fun _ ↦ hreading fansJson
  apply Looks.add _ fun h ↦ absurd h hpump
  apply Looks.add _ fun _ ↦ hreading pumpJson
  apply Looks.add _ fun _ ↦ hreading infoJson
  exact .inl rfl

end Handlers

/-- The cooler over its interface, behind a server that has a name or none. -/
def interface (server : Option String) : Service SharedCooler := ⟨endpoints, server⟩

/-- What a request may make of the cooler, given the response to it. -/
structure Obeys (r : Request) (c : Cooler) (response : Response) (after : Cooler) : Prop where
  status : response.status ∈ statuses
  pump : r.Asks "POST" "/pump" → PumpWrite r.body c response.status after
  fans : r.Asks "POST" "/fans" → FansWrite r.body c response.status after
  other : ¬r.Asks "POST" "/pump" → ¬r.Asks "POST" "/fans" → after = c
  get : methodKey r.method = methodKey "GET" → after = c
  refused : response.status ≠ .ok → after = c

section Dispatch

variable {server : Option String} {r : Request} {c : Cooler}

theorem Obeys.of_pumpWrite {response : Response} {after : Cooler} (h : r.Asks "POST" "/pump")
    (hw : PumpWrite r.body c response.status after) : Obeys r c response after where
  status := hw.status_mem
  pump _ := hw
  fans hf := absurd hf (h.not_asks (.inl pump_ne_fans.symm))
  other hn := absurd h hn
  get hg := absurd (hg.symm.trans h.2.symm) get_ne_post
  refused := hw.eq_of_ne_ok

theorem Obeys.of_fansWrite {response : Response} {after : Cooler} (h : r.Asks "POST" "/fans")
    (hw : FansWrite r.body c response.status after) : Obeys r c response after where
  status := hw.status_mem
  pump hp := absurd hp (h.not_asks (.inl pump_ne_fans))
  fans _ := hw
  other _ hn := absurd h hn
  get hg := absurd (hg.symm.trans h.2.symm) get_ne_post
  refused := hw.eq_of_ne_ok

theorem Obeys.of_other {response : Response} (hp : ¬r.Asks "POST" "/pump")
    (hf : ¬r.Asks "POST" "/fans") (hs : response.status ∈ statuses) : Obeys r c response c where
  status := hs
  pump h := absurd h hp
  fans h := absurd h hf
  other _ _ := rfl
  get _ := rfl
  refused _ := rfl

theorem dispatch_of_reading {view : Cooler → Json.Value}
    (h : endpoints.handler? r.resource r.method = some (reading view)) (c : Cooler) :
    (interface server).dispatch r ⟨c, false⟩ =
      ((interface server).decorate (.json .ok (view c)), ⟨c, false⟩) := by
  have hview : reading view r ⟨c, false⟩ = (done (view c), ⟨c, false⟩) := rfl
  rw [Service.dispatch_of_handler (s := interface server) h, hview, done, Outcome.toResponse]

theorem obeys_dispatch (server : Option String) (r : Request) (c : Cooler) :
    ∃ after, ((interface server).dispatch r ⟨c, false⟩).2 = ⟨after, false⟩ ∧
      Obeys r c ((interface server).dispatch r ⟨c, false⟩).1 after := by
  by_cases hp : r.Asks "POST" "/pump"
  · obtain ⟨after, hafter, hw⟩ := pumpWrite_writing r c
    have hd := Service.dispatch_of_handler (s := interface server) (handler?_of_post_pump hp)
    rw [hd]
    refine ⟨after, hafter, .of_pumpWrite hp ?_⟩
    rwa [Service.status_decorate]
  · by_cases hf : r.Asks "POST" "/fans"
    · obtain ⟨after, hafter, hw⟩ := fansWrite_writing r c
      have hd := Service.dispatch_of_handler (s := interface server) (handler?_of_post_fans hf)
      rw [hd]
      refine ⟨after, hafter, .of_fansWrite hf ?_⟩
      rwa [Service.status_decorate]
    · rcases looks_of_not_post hp hf with hnone | ⟨view, hview⟩
      · obtain ⟨hstatus, hstate⟩ :=
          Service.dispatch_of_none (s := interface server) hnone ⟨c, false⟩
        refine ⟨c, hstate, .of_other hp hf ?_⟩
        rcases hstatus with h | h
        · simp [statuses, h]
        · simp [statuses, h]
      · rw [dispatch_of_reading hview]
        refine ⟨c, rfl, .of_other hp hf ?_⟩
        rw [Service.status_decorate]
        exact List.mem_cons_self

end Dispatch

/-- Requests with their responses, and what they make of the cooler one after the other. -/
inductive Follows : Cooler → List (Request × Response) → Cooler → Prop
  | nil {c : Cooler} : Follows c [] c
  | cons {c after last : Cooler} {r : Request} {response : Response}
    {rest : List (Request × Response)} : Obeys r c response after → Follows after rest last →
      Follows c ((r, response) :: rest) last

def acceptedMode? (e : Request × Response) : Option UInt8 :=
  if e.1.Asks "POST" "/pump" ∧ e.2.status = .ok then
    (Json.readWhole readPumpSettings e.1.body).toOption.map (·.mode)
  else none

def acceptedDrive? (e : Request × Response) : Option FanDrive :=
  if e.1.Asks "POST" "/fans" ∧ e.2.status = .ok then
    (Json.readWhole readFanSettings e.1.body).toOption.bind (·.drives.head?)
  else none

def lastMode? (exchanges : List (Request × Response)) : Option UInt8 :=
  (exchanges.filterMap acceptedMode?).getLast?

def lastDrive? (exchanges : List (Request × Response)) : Option FanDrive :=
  (exchanges.filterMap acceptedDrive?).getLast?

section Last

variable {r : Request} {response : Response} {c after last : Cooler}

theorem acceptedMode?_eq_none (h : ¬(r.Asks "POST" "/pump" ∧ response.status = .ok)) :
    acceptedMode? (r, response) = none := if_neg h

theorem acceptedDrive?_eq_none (h : ¬(r.Asks "POST" "/fans" ∧ response.status = .ok)) :
    acceptedDrive? (r, response) = none := if_neg h

theorem Obeys.acceptedMode?_eq_some (h : Obeys r c response after) (hp : r.Asks "POST" "/pump")
    (hok : response.status = .ok) :
    ∃ mode, acceptedMode? (r, response) = some mode ∧
      after = { c with pumpMode := mode } := by
  have hw := h.pump hp
  rw [hok] at hw
  obtain ⟨settings, hr, hafter⟩ := hw.of_ok
  refine ⟨settings.mode, ?_, hafter⟩
  rw [acceptedMode?, if_pos ⟨hp, hok⟩, hr]
  rfl

theorem Obeys.acceptedDrive?_eq_some (h : Obeys r c response after) (hf : r.Asks "POST" "/fans")
    (hok : response.status = .ok) :
    ∃ drive, acceptedDrive? (r, response) = some drive ∧ drive.IsValid ∧
      after = { c with fans := drive } := by
  have hw := h.fans hf
  rw [hok] at hw
  obtain ⟨settings, drive, hr, hdrive, hv, hafter⟩ := hw.of_ok
  refine ⟨drive, ?_, hv, hafter⟩
  rw [acceptedDrive?, if_pos ⟨hf, hok⟩, hr]
  exact hdrive

theorem Obeys.isValid (h : Obeys r c response after) {drive : FanDrive}
    (hd : acceptedDrive? (r, response) = some drive) : drive.IsValid := by
  by_cases hf : r.Asks "POST" "/fans" ∧ response.status = .ok
  · obtain ⟨accepted, ha, hv, -⟩ := h.acceptedDrive?_eq_some hf.1 hf.2
    rw [ha] at hd
    cases hd
    exact hv
  · rw [acceptedDrive?_eq_none hf] at hd
    cases hd

theorem Obeys.eq (h : Obeys r c response after) :
    after =
      { c with
        pumpMode := (acceptedMode? (r, response)).getD c.pumpMode
        fans := (acceptedDrive? (r, response)).getD c.fans } := by
  by_cases hp : r.Asks "POST" "/pump" ∧ response.status = .ok
  · have hf : ¬r.Asks "POST" "/fans" := hp.1.not_asks (.inl pump_ne_fans.symm)
    obtain ⟨mode, hm, hafter⟩ := h.acceptedMode?_eq_some hp.1 hp.2
    rw [hm, acceptedDrive?_eq_none fun ha ↦ hf ha.1]
    exact hafter
  · rw [acceptedMode?_eq_none hp]
    by_cases hf : r.Asks "POST" "/fans" ∧ response.status = .ok
    · obtain ⟨drive, hd, -, hafter⟩ := h.acceptedDrive?_eq_some hf.1 hf.2
      rw [hd]
      exact hafter
    · rw [acceptedDrive?_eq_none hf]
      by_cases hok : response.status = .ok
      · exact h.other (fun ha ↦ hp ⟨ha, hok⟩) fun ha ↦ hf ⟨ha, hok⟩
      · exact h.refused hok

theorem Follows.eq {exchanges : List (Request × Response)} (h : Follows c exchanges last) :
    last =
      { c with
        pumpMode := (lastMode? exchanges).getD c.pumpMode
        fans := (lastDrive? exchanges).getD c.fans } := by
  induction h with
  | nil => rfl
  | cons hstep _ ih =>
    have hafter := hstep.eq
    subst hafter
    rw [ih]
    simp only [lastMode?, lastDrive?, getD_getLast?_filterMap]

theorem Follows.isValid {exchanges : List (Request × Response)} (h : Follows c exchanges last) :
    ∀ drive ∈ exchanges.filterMap acceptedDrive?, drive.IsValid := by
  intro drive hd
  obtain ⟨e, he, hdrive⟩ := List.mem_filterMap.1 hd
  clear hd
  induction h with
  | nil => cases he
  | cons hstep _ ih =>
    rcases List.mem_cons.1 he with rfl | he
    · exact hstep.isValid hdrive
    · exact ih he

end Last

theorem follows_dispatchAll (server : Option String) (requests : List Request) (c : Cooler) :
    ∃ exchanges last,
      (interface server).dispatchAll requests ⟨c, false⟩ = (exchanges, ⟨last, false⟩) ∧
        exchanges.map (·.1) = requests ∧ Follows c exchanges last := by
  induction requests generalizing c with
  | nil => exact ⟨[], c, rfl, rfl, .nil⟩
  | cons r rest ih =>
    obtain ⟨after, hafter, hobeys⟩ := obeys_dispatch server r c
    obtain ⟨exchanges, last, hall, hmap, hfollows⟩ := ih after
    refine ⟨(r, ((interface server).dispatch r ⟨c, false⟩).1) :: exchanges, last, ?_, ?_, ?_⟩
    · rw [Service.dispatchAll]
      simp only [hafter, hall]
    · rw [List.map_cons, hmap]
    · exact .cons hobeys hfollows

/-- The speed of the fans after some exchanges: that of the last drive that was taken, else that
which they had before. -/
def speedAfter (exchanges : List (Request × Response)) (c : Cooler) : Nat :=
  ((lastDrive? exchanges).map (·.speed c.temperature)).getD c.fanRpm.toNat

theorem Follows.toNat_fanRpm {exchanges : List (Request × Response)} {c last : Cooler}
    (h : Follows c exchanges last) : last.fanRpm.toNat = speedAfter exchanges c := by
  have hlast := h.eq
  unfold speedAfter
  cases hd : lastDrive? exchanges with
  | none =>
    rw [hd, Option.getD_none] at hlast
    rw [hlast]
    rfl
  | some drive =>
    rw [hd, Option.getD_some] at hlast
    have hv : drive.IsValid := h.isValid drive (List.mem_of_getLast? hd)
    have hfans : last.fans.IsValid := by
      rw [hlast]
      exact hv
    rw [Cooler.toNat_fanRpm hfans, hlast]
    rfl

theorem fansJson_eq (c : Cooler) :
    fansJson c =
      .ofMembers [("rpm", .array (List.replicate c.fanCount (.ofNat c.fanRpm.toNat)))] := by
  rw [fansJson, Cooler.fansRpm, List.map_replicate]

/-- Settings that are written as JSON are understood. Whatever a cooler is asked, it can be used
afterwards and follows the writes that were taken, the last of each kind and nothing else, and so
does every speed that is read. -/
theorem cooler_follows_accepted_writes (server : Option String) (c : Cooler)
    (requests : List Request) :
    (∀ form : FanForm, form.IsReadFrom (Bytes.ofText form.toJson.text)) ∧
    (∀ mode : UInt8, Json.readWhole readPumpSettings
      (Bytes.ofText (Json.Value.ofMembers [("mode", .ofNat mode.toNat)]).text) = .ok ⟨mode⟩) ∧
    ∃ exchanges last,
      (interface server).dispatchAll requests ⟨c, false⟩ = (exchanges, ⟨last, false⟩) ∧
        exchanges.map (·.1) = requests ∧
        Follows c exchanges last ∧
        last =
          { c with
            pumpMode := (lastMode? exchanges).getD c.pumpMode
            fans := (lastDrive? exchanges).getD c.fans } ∧
        ∀ r, r.Asks "GET" "/fans" →
          ((interface server).dispatch r ⟨last, false⟩).1.status = .ok ∧
            ((interface server).dispatch r ⟨last, false⟩).1.body =
              Bytes.ofText (Json.Value.ofMembers [("rpm", .array
                (List.replicate c.fanCount (.ofNat (speedAfter exchanges c))))]).text := by
  obtain ⟨exchanges, last, hall, hmap, hfollows⟩ := follows_dispatchAll server requests c
  refine ⟨FanForm.isReadFrom_toJson, fun mode ↦ (spells_pumpSettings mode).readWhole,
    exchanges, last, hall, hmap, hfollows, hfollows.eq, ?_⟩
  intro r hr
  have hcount : last.fanCount = c.fanCount := by
    rw [hfollows.eq]
  rw [dispatch_of_reading (handler?_of_get_fans hr), Service.status_decorate,
    Service.body_decorate, Response.json, Response.Draft.body_toResponse, fansJson_eq, hcount,
    hfollows.toNat_fanRpm]
  exact ⟨rfl, rfl⟩

end LocalHttp.Cooling
