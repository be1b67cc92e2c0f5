import LocalHttp.Cooling.Command
import LocalHttp.Proofs.Answers
import LocalHttp.Proofs.CoolerApi
import LocalHttp.Proofs.ValueText

namespace LocalHttp

open Incoming

theorem Request.Clean.outcome_readRequest {r : Request} (h : r.Clean) :
    (readRequest .fresh (.ofBytes r.encode)).1 = .message r.received := by
  obtain ⟨raw, hreading, hraw⟩ := h.exists_reading []
  rw [List.append_nil] at hreading
  rw [readRequest, outcome_read, hreading, Reading.result, hraw]

theorem Response.Clean.outcome_readResponse {r : Response} (h : r.Clean) :
    (readResponse .fresh (.ofBytes r.encode)).1 = .message r.received := by
  obtain ⟨raw, hreading, hraw⟩ := h.exists_reading []
  rw [List.append_nil] at hreading
  rw [readResponse, outcome_read, hreading, Reading.result, hraw]

theorem Response.status_received (r : Response) : r.received.status = r.status := rfl

theorem Response.body_received (r : Response) : r.received.body = r.body := rfl

theorem Request.Draft.ofTarget_of_not_mem {method target : String} (h : '?' ∉ target.toList) :
    Draft.ofTarget method target = { method := method, resource := target } := by
  have hread : Target.read target = .ok (target, .empty) := by
    rw [Target.read, Target.splitOnce?_of_not_mem h]
  rw [Draft.ofTarget, Draft.ofTarget?, hread]
  rfl

theorem Request.body_complete (host : String) (r : Request) :
    (Call.complete host r).body = r.body :=
  Message.body_withContentLength _

namespace Cooling

open Incoming (readRequest readResponse)
open Bytes (ofText)
open Json (Value)

theorem clean_json : (⟨"Content-Type", Json.contentType⟩ : Field).Clean :=
  Field.clean_of_unpadded (by decide) (by decide) (by decide) (by decide)

section Requests

def IsPlain (method route : String) : Prop :=
  method.toList.map Char.toUpper = method.toList ∧ route.toList.map Char.toLower = route.toList

instance (method route : String) : Decidable (IsPlain method route) :=
  inferInstanceAs (Decidable (_ ∧ _))

theorem asks_iff {r : Request} {method route other path : String} (h : r.Asks method route)
    (hplain : IsPlain method route) (ho : IsPlain other path) :
    r.Asks other path ↔ other = method ∧ path = route := by
  obtain ⟨hroute, hmethod⟩ := h
  rw [Routes.routeKey_eq hplain.2] at hroute
  rw [Routes.methodKey_eq hplain.1] at hmethod
  rw [Request.Asks, ← hroute, ← hmethod, Routes.routeKey_eq ho.2, Routes.methodKey_eq ho.1,
    and_comm]

namespace Command

def body (command : Command) : Bytes :=
  match command.payload with
  | some value => ofText value.text
  | none => []

def methods : List String := ["GET", "POST"]

def resources : List String := ["/info", "/pump", "/fans", "/temperature", "/firmware"]

theorem method_mem (command : Command) : command.method ∈ methods := by
  unfold method
  cases command.payload.isSome <;> decide

theorem resource_mem (command : Command) : command.resource ∈ resources := by
  cases command <;> simp [resource, resources]

theorem isPlain (command : Command) : IsPlain command.method command.resource := by
  have hplain : ∀ method ∈ methods, ∀ resource ∈ resources, IsPlain method resource := by decide
  exact hplain _ command.method_mem _ command.resource_mem

theorem not_mem_resource (command : Command) :
    ' ' ∉ command.resource.toList ∧ '?' ∉ command.resource.toList := by
  have hmarks : ∀ resource ∈ resources, ' ' ∉ resource.toList ∧ '?' ∉ resource.toList := by
    decide
  exact hmarks _ command.resource_mem

theorem ofTarget_resource (command : Command) :
    Request.Draft.ofTarget command.method command.resource =
      { method := command.method, resource := command.resource } :=
  Request.Draft.ofTarget_of_not_mem command.not_mem_resource.2

/-- What is sent names the method and the resource, without any argument. -/
theorem exists_request_eq (command : Command) :
    ∃ contentType, (contentType = "" ∨ contentType = Json.contentType) ∧
      command.request =
        { toMessage := .ofParts command.body contentType .empty
          method := command.method, resource := command.resource, args := .empty } := by
  unfold request body
  cases command.payload with
  | some value =>
    refine ⟨Json.contentType, .inr rfl, ?_⟩
    dsimp only
    rw [ofTarget_resource]
    rfl
  | none =>
    refine ⟨"", .inl rfl, ?_⟩
    dsimp only
    rw [Request.plain, ofTarget_resource]
    rfl

theorem body_request (command : Command) : command.request.body = command.body := by
  obtain ⟨contentType, -, he⟩ := command.exists_request_eq
  rw [he]
  rfl

theorem sendable_request (command : Command) : command.request.Sendable := by
  obtain ⟨contentType, hc, he⟩ := command.exists_request_eq
  have hf : (⟨"Content-Type", contentType⟩ : Field).Clean := by
    rcases hc with rfl | rfl
    · exact Field.clean_of_unpadded (by decide) (by decide) (by decide) (by decide)
    · exact clean_json
  have hmethod : ∀ method ∈ methods, ' ' ∉ method.toList := by decide
  obtain ⟨hspace, hquery⟩ := command.not_mem_resource
  rw [he]
  exact ⟨Message.sendable_ofParts _ hf, hmethod _ command.method_mem, hspace, hquery⟩

def asked (host : String) (command : Command) : Request :=
  (Call.complete host command.request).received

theorem named_asked (host : String) (command : Command) :
    (command.asked host).method = command.method ∧
      (command.asked host).resource = command.resource := by
  obtain ⟨contentType, -, he⟩ := command.exists_request_eq
  have hm : (command.asked host).method = command.request.method := rfl
  have hr : (command.asked host).resource = command.request.resource := rfl
  rw [hm, hr, he]
  exact ⟨rfl, rfl⟩

theorem asks_asked (host : String) (command : Command) :
    (command.asked host).Asks command.method command.resource := by
  obtain ⟨hm, hr⟩ := command.named_asked host
  rw [Request.Asks, hm, hr]
  exact ⟨rfl, rfl⟩

theorem body_asked (host : String) (command : Command) :
    (command.asked host).body = command.body :=
  (Request.body_complete host command.request).trans command.body_request

end Command

end Requests

namespace Command

def handler : Command → Handler SharedCooler
  | .info => reading infoJson
  | .pump none => reading pumpJson
  | .pump (some _) => writing readPumpSettings applyPump
  | .fans none => reading fansJson
  | .fans (some _) => writing readFanSettings applyFans
  | .temperature => reading temperatureJson
  | .firmware => reading firmwareJson

/-- The body holds what the command sets, and nothing for a command that only looks. -/
def ReadFrom (command : Command) (body : Bytes) : Prop :=
  match command with
  | .pump (some mode) => Json.readWhole readPumpSettings body = .ok ⟨mode⟩
  | .fans (some drive) => Json.readWhole readFanSettings body = .ok ⟨[drive]⟩
  | _ => body = []

/-- The commands that a cooler takes. -/
def Accepted : Command → Prop
  | .pump (some mode) => mode ≤ 2
  | .fans (some drive) => drive.IsValid
  | _ => True

/-- What a cooler says when a command is carried out on it, and the cooler afterwards. -/
def operate (command : Command) (c : Cooler) : Except CoolerFault (Value × Cooler) :=
  match command with
  | .info => .ok (infoJson c, c)
  | .pump none => .ok (pumpJson c, c)
  | .pump (some mode) => (c.setPumpMode mode).map fun after ↦ (.ofMembers [], after)
  | .fans none => .ok (fansJson c, c)
  | .fans (some (.pwm duty)) => (c.setPwm duty).map fun after ↦ (.ofMembers [], after)
  | .fans (some (.rpm speed)) => (c.setRpm speed).map fun after ↦ (.ofMembers [], after)
  | .fans (some (.curve points)) => (c.setCurve points).map fun after ↦ (.ofMembers [], after)
  | .temperature => .ok (temperatureJson c, c)
  | .firmware => .ok (firmwareJson c, c)

theorem find_of_asks (command : Command) {r : Request}
    (h : r.Asks command.method command.resource) :
    endpoints.find r.resource r.method = .handler command.handler := by
  have hiff (method route : String) (ho : IsPlain method route) :
      r.Asks method route ↔ method = command.method ∧ route = command.resource :=
    asks_iff h command.isPlain ho
  rw [Routes.find_eq_handler_iff]
  -- every comparison is now one of names as they are written
  simp only [endpoints, Routes.handler?_add_one, hiff "GET" "/info" (by decide),
    hiff "GET" "/pump" (by decide), hiff "POST" "/pump" (by decide),
    hiff "GET" "/fans" (by decide), hiff "POST" "/fans" (by decide),
    hiff "GET" "/temperature" (by decide), hiff "GET" "/firmware" (by decide)]
  cases command with
  | pump mode => cases mode <;> rfl
  | fans drive => cases drive <;> rfl
  | info => rfl
  | temperature => rfl
  | firmware => rfl

theorem readFrom_body (command : Command) : command.ReadFrom command.body := by
  cases command with
  | pump mode =>
    cases mode with
    | none => rfl
    | some mode => exact (spells_pumpSettings mode).readWhole
  | fans drive =>
    cases drive with
    | none => rfl
    | some drive =>
      cases drive with
      | rpm speed => exact FanForm.readWhole_toJson ⟨some speed, none, none⟩
      | pwm duty => exact FanForm.readWhole_toJson ⟨none, some duty, none⟩
      | curve points => exact FanForm.readWhole_toJson ⟨none, none, some points⟩
  | info => rfl
  | temperature => rfl
  | firmware => rfl

theorem operate_fans (drive : FanDrive) (c : Cooler) :
    (Command.fans (some drive)).operate c =
      (c.drive drive).map fun after ↦ (.ofMembers [], after) := by
  cases drive <;> rfl

/-- A cooler takes the commands that are accepted, and no others. -/
theorem operate_cases (command : Command) (c : Cooler) :
    (command.Accepted ∧ ∃ value after, command.operate c = .ok (value, after)) ∨
      (¬command.Accepted ∧ ∃ fault, command.operate c = .error fault) := by
  cases command with
  | pump mode =>
    cases mode with
    | none => exact .inl ⟨trivial, _, _, rfl⟩
    | some mode =>
      rw [operate, Cooler.setPumpMode]
      by_cases hm : 2 < mode
      · rw [if_pos hm]
        exact .inr ⟨UInt8.not_le.2 hm, _, rfl⟩
      · rw [if_neg hm]
        exact .inl ⟨UInt8.not_lt.1 hm, _, _, rfl⟩
  | fans drive =>
    cases drive with
    | none => exact .inl ⟨trivial, _, _, rfl⟩
    | some drive =>
      rw [operate_fans]
      rcases c.drive_eq drive with ⟨hv, he⟩ | ⟨hv, fault, he⟩
      · rw [he]
        exact .inl ⟨hv, _, _, rfl⟩
      · rw [he]
        exact .inr ⟨hv, fault, rfl⟩
  | info => exact .inl ⟨trivial, _, _, rfl⟩
  | temperature => exact .inl ⟨trivial, _, _, rfl⟩
  | firmware => exact .inl ⟨trivial, _, _, rfl⟩

theorem readFrom_asked (command : Command) (host : String) :
    command.ReadFrom (command.asked host).body := by
  rw [command.body_asked]
  exact command.readFrom_body

end Command

def settle (c : Cooler) : Except CoolerFault (Value × Cooler) → Outcome × SharedCooler
  | .ok (value, after) => (done value, ⟨after, false⟩)
  | .error fault => (.failure fault.message, ⟨c, false⟩)

theorem settle_write (c : Cooler) (result : Except CoolerFault Cooler) :
    settle c (result.map fun after ↦ (.ofMembers [], after)) =
      ((afterWrite c result).1, ⟨(afterWrite c result).2, false⟩) := by
  cases result <;> rfl

theorem Command.handler_eq {command : Command} {r : Request} (h : command.ReadFrom r.body)
    (c : Cooler) : command.handler r ⟨c, false⟩ = settle c (command.operate c) := by
  cases command with
  | pump mode =>
    cases mode with
    | none => rfl
    | some mode =>
      rw [handler, writing_of_ok applyPump h, operate, settle_write]
      rfl
  | fans drive =>
    cases drive with
    | none => rfl
    | some drive =>
      rw [handler, writing_of_ok applyFans h, operate_fans, settle_write]
      rfl
  | info => rfl
  | temperature => rfl
  | firmware => rfl

section Answers

/-- What can be shown of the cooler: a machine word counts the fans, and the temperature is a
number that 64 bits hold. -/
structure Cooler.InRange (c : Cooler) : Prop where
  fanCount : c.fanCount < Nat.pow 2 32
  temperature : c.temperature.WellFormed

theorem fits_of_lt {depth n : Nat} (h : n < Nat.pow 2 32) : (Value.ofNat n).Fits depth :=
  Value.fits_ofNat (Nat.le_trans (Nat.le_of_lt h) (by decide))

theorem fits_speed {depth : Nat} (n : UInt16) : (Value.ofNat n.toNat).Fits depth :=
  fits_of_lt (Nat.lt_trans n.toNat_lt (by decide))

theorem fits_member {depth : Nat} {name : String} {value : Value} (h : value.Fits depth) :
    (Value.ofMembers [(name, value)]).Fits (depth + 1) :=
  Value.fits_ofMembers (List.forall_mem_singleton.2 h)

theorem fits_firmware {depth : Nat} (f : Firmware) : f.toJson.Fits (depth + 1) := by
  refine Value.fits_ofMembers fun m hm ↦ ?_
  simp only [List.mem_cons, List.not_mem_nil, or_false] at hm
  rcases hm with rfl | rfl | rfl <;> exact fits_of_lt (Nat.lt_trans (UInt8.toNat_lt _) (by decide))

variable {c : Cooler}

theorem Cooler.InRange.fits_infoJson (hc : c.InRange) : (infoJson c).Fits Json.maxDepth := by
  refine Value.fits_ofMembers fun m hm ↦ ?_
  simp only [List.mem_cons, List.not_mem_nil, or_false] at hm
  rcases hm with rfl | rfl
  · exact .string c.name
  · exact fits_of_lt hc.fanCount

theorem fits_fansJson (c : Cooler) : (fansJson c).Fits Json.maxDepth := by
  refine fits_member (.array fun v hv ↦ ?_)
  obtain ⟨n, -, rfl⟩ := List.mem_map.1 hv
  exact fits_speed n

theorem Cooler.InRange.fits_operate (hc : c.InRange) {command : Command} {value : Value}
    {after : Cooler} (h : command.operate c = .ok (value, after)) :
    value.Fits Json.maxDepth := by
  have hwrite {result : Except CoolerFault Cooler}
      (hr : (result.map fun after ↦ (Value.ofMembers [], after)) = .ok (value, after)) :
      value.Fits Json.maxDepth := by
    cases result with
    | error fault => cases hr
    | ok changed =>
      cases hr
      exact Value.fits_ofMembers nofun
  cases command with
  | pump mode =>
    cases mode with
    | none =>
      cases h
      exact fits_member (fits_speed c.pumpRpm)
    | some mode => exact hwrite h
  | fans drive =>
    cases drive with
    | none =>
      cases h
      exact fits_fansJson c
    | some drive =>
      rw [Command.operate_fans] at h
      exact hwrite h
  | info =>
    cases h
    exact hc.fits_infoJson
  | temperature =>
    cases h
    exact fits_member (Value.fits_ofBinary64 hc.temperature)
  | firmware =>
    cases h
    exact fits_member (fits_firmware c.firmware)

theorem code_report_of_ok {r : Response} {value : Value} (hs : r.status = .ok)
    (hb : r.body = ofText value.text) (hv : value.Fits Json.maxDepth) (asJson : Bool)
    (path : String) : (report asJson path (.ok r)).code = 0 := by
  have hbody : ∃ w, bodyValue r = .ok w := by
    unfold bodyValue
    split
    · exact ⟨.null, rfl⟩
    · obtain ⟨w, hw⟩ := hv.exists_ofBytes
      rw [Message.json, hb]
      exact ⟨w, hw⟩
  obtain ⟨w, hw⟩ := hbody
  have hsuccess : Status.ok.isSuccess = true := by decide
  rw [report, reportResponse, hs, if_pos hsuccess, hw]

theorem code_report_of_internalServerError {r : Response} (hs : r.status = .internalServerError)
    (asJson : Bool) (path : String) : (report asJson path (.ok r)).code = 2 := by
  have hfailure : ¬Status.internalServerError.isSuccess = true := by decide
  rw [report, reportResponse, hs, if_neg hfailure]

end Answers

/-- The cooler has done what the command says, and the answer shows it; or it has refused the
command, is as it was, and the answer says why. -/
structure Command.Settles (command : Command) (c : Cooler) (response : Response)
    (after : Cooler) : Prop where
  accepted : command.Accepted → ∃ value, command.operate c = .ok (value, after) ∧
    response.status = .ok ∧ response.body = ofText value.text
  refused : ¬command.Accepted → ∃ fault, command.operate c = .error fault ∧ after = c ∧
    response.status = .internalServerError ∧ response.body = ofText fault.message

section Exchanges

variable {command : Command} {c : Cooler}

/-- What the server sends back for a command, apart from the headers that it adds. -/
def Command.reply (command : Command) (c : Cooler) : Response :=
  (settle c (command.operate c)).1.toResponse

theorem Command.sendable_reply (h : (command.reply c).body.length < Nat.pow 2 64) :
    (command.reply c).Sendable := by
  unfold reply at h ⊢
  cases ho : command.operate c with
  | ok result =>
    rw [ho] at h
    have hbody := h
    rw [settle, done, Outcome.toResponse, Response.json, Response.Draft.body_toResponse] at hbody
    exact Response.sendable_ofBody clean_json hbody (noBreak_of_not_mem (by decide))
  | error fault =>
    rw [ho, settle, Outcome.toResponse, Response.internalError, Response.body_plainText] at h
    exact Response.sendable_plainText h (noBreak_of_not_mem (by decide))

theorem Command.dispatch_asked (command : Command) (server : Option String) (host : String)
    (c : Cooler) : (interface server).dispatch (command.asked host) ⟨c, false⟩ =
      ((interface server).decorate (command.reply c), (settle c (command.operate c)).2) := by
  have hfind := command.find_of_asks (command.asks_asked host)
  rw [Service.dispatch_of_handler (s := interface server) (Routes.find_eq_handler_iff.1 hfind),
    Command.handler_eq (command.readFrom_asked host) c, reply]

theorem Command.exists_settles (command : Command) (server : Option String) (c : Cooler) :
    ∃ after, (settle c (command.operate c)).2 = ⟨after, false⟩ ∧
      command.Settles c ((interface server).decorate (command.reply c)) after := by
  rcases command.operate_cases c with ⟨ha, value, after, ho⟩ | ⟨ha, fault, ho⟩
  · refine ⟨after, by rw [ho, settle], fun _ ↦ ⟨value, ho, ?_, ?_⟩, absurd ha⟩
    · rw [Service.status_decorate, reply, ho]
      rfl
    · rw [Service.body_decorate, reply, ho]
      exact Response.Draft.body_toResponse _
  · refine ⟨c, by rw [ho, settle], fun h ↦ absurd h ha, fun _ ↦ ⟨fault, ho, rfl, ?_, ?_⟩⟩
    · rw [Service.status_decorate, reply, ho]
      rfl
    · rw [Service.body_decorate, reply, ho]
      exact Response.body_plainText _ _

end Exchanges

/-- The request for a command is read as it was sent and meets the handler that belongs to it,
which reads what the command says. The cooler does this and answers with status 200, or refuses it
with status 500 and is as it was; and the client that reads the answer ends with 0 or with 2. -/
theorem client_agrees_with_cooler (command : Command) {c : Cooler} (hc : c.InRange)
    {server : Option String} {host : String}
    (hserver : ∀ name, server = some name → (⟨"Server", name⟩ : Field).Clean)
    (hhost : (⟨"Host", host⟩ : Field).Clean)
    (hasked : command.request.body.length < Nat.pow 2 64)
    (hreply : (command.reply c).body.length < Nat.pow 2 64) :
    ∃ asked response after,
      (readRequest .fresh (.ofBytes (Call.complete host command.request).encode)).1 =
          .message asked ∧
        asked.method = command.method ∧ asked.resource = command.resource ∧
        endpoints.find asked.resource asked.method = .handler command.handler ∧
        command.ReadFrom asked.body ∧
        (interface server).dispatch asked ⟨c, false⟩ = (response, ⟨after, false⟩) ∧
        command.Settles c response after ∧
        ∃ seen, (readResponse .fresh (.ofBytes response.encode)).1 = .message seen ∧
          seen.status = response.status ∧ seen.body = response.body ∧
          ∀ asJson path,
            (command.Accepted → (report asJson path (.ok seen)).code = 0) ∧
              (¬command.Accepted → (report asJson path (.ok seen)).code = 2) := by
  have hcomplete : (Call.complete host command.request).Clean :=
    command.sendable_request.complete hhost hasked
  obtain ⟨after, hafter, hsettles⟩ := command.exists_settles server c
  have hclean : ((interface server).decorate (command.reply c)).Clean :=
    Service.clean_decorate hserver (Command.sendable_reply hreply) hreply
  have hdispatch := command.dispatch_asked server host c
  rw [hafter] at hdispatch
  obtain ⟨hmethod, hresource⟩ := command.named_asked host
  refine ⟨command.asked host, (interface server).decorate (command.reply c), after,
    hcomplete.outcome_readRequest, hmethod, hresource,
    command.find_of_asks (command.asks_asked host), command.readFrom_asked host, hdispatch,
    hsettles, Response.received _, hclean.outcome_readResponse, Response.status_received _,
    Response.body_received _, fun asJson path ↦ ⟨fun ha ↦ ?_, fun ha ↦ ?_⟩⟩
  · obtain ⟨value, ho, hstatus, hbody⟩ := hsettles.accepted ha
    exact code_report_of_ok ((Response.status_received _).trans hstatus)
      ((Response.body_received _).trans hbody) (hc.fits_operate ho) asJson path
  · obtain ⟨fault, -, -, hstatus, -⟩ := hsettles.refused ha
    exact code_report_of_internalServerError ((Response.status_received _).trans hstatus)
      asJson path

def freshCooler : Cooler := { name := defaultName, fanCount := 2 }

def risingCurve : List CurvePoint := [⟨20, 10⟩, ⟨40, 100⟩]

def warmUp : Command := .fans (some (.curve risingCurve))

theorem client_agrees_with_cooler_curve :
    freshCooler.InRange ∧ (⟨"Host", "localhost"⟩ : Field).Clean ∧
      warmUp.request.body.length < Nat.pow 2 64 ∧
      (warmUp.reply freshCooler).body.length < Nat.pow 2 64 ∧ warmUp.Accepted ∧
      ∃ asked response,
        (readRequest .fresh (.ofBytes (Call.complete "localhost" warmUp.request).encode)).1 =
            .message asked ∧
          (interface none).dispatch asked ⟨freshCooler, false⟩ =
            (response, ⟨{ freshCooler with fans := .curve risingCurve }, false⟩) ∧
          response.status = .ok ∧
          ∃ seen, (readResponse .fresh (.ofBytes response.encode)).1 = .message seen ∧
            ∀ asJson path, (report asJson path (.ok seen)).code = 0 := by
  have hc : freshCooler.InRange := by
    have ht : freshCooler.temperature = .finite false (30 * 2 ^ 48) (-48) := by decide +kernel
    refine ⟨by decide, ?_⟩
    rw [ht]
    exact ⟨by decide, by decide, by decide⟩
  have hserver : ∀ name, none = some name → (⟨"Server", name⟩ : Field).Clean := nofun
  have hhost : (⟨"Host", "localhost"⟩ : Field).Clean :=
    Field.clean_of_unpadded (by decide) (by decide) (by decide) (by decide)
  have hasked : warmUp.request.body.length < Nat.pow 2 64 := by
    rw [Command.body_request]
    decide +kernel
  have hreply : (warmUp.reply freshCooler).body.length < Nat.pow 2 64 := by decide +kernel
  have ha : warmUp.Accepted := ⟨by decide, by decide, by decide⟩
  obtain ⟨asked, response, after, hread, -, -, -, -, hdispatch, hsettles, seen, hseen, -, -,
    hcode⟩ := client_agrees_with_cooler warmUp hc hserver hhost hasked hreply
  obtain ⟨value, ho, hstatus, -⟩ := hsettles.accepted ha
  obtain rfl : after = { freshCooler with fans := .curve risingCurve } := by
    cases ho
    rfl
  exact ⟨hc, hhost, hasked, hreply, ha, asked, response, hread, hdispatch, hstatus, seen, hseen,
    fun asJson path ↦ (hcode asJson path).1 ha⟩

end Cooling

end LocalHttp
