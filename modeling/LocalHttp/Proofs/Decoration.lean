import LocalHttp.Connection
import LocalHttp.Proofs.Dispatch
import LocalHttp.Proofs.Registrations

namespace LocalHttp

open Text (SameWord)

namespace FieldTable

variable {key : String → String} {t : FieldTable key} {fields : List Field}

theorem fields_foldl_insert_of_pairwise (t : FieldTable key)
    (h : fields.Pairwise fun a b ↦ key a.name ≠ key b.name) :
    (fields.foldl insert t).fields = t.fields ++ fields.filter fun f ↦ !t.contains f.name := by
  rw [fields_foldl_insert, eraseDupsBy_sameName (h.filter _)]

theorem not_contains_iff {name : String} :
    (!t.contains name) = true ↔ ∀ f ∈ t.fields, key f.name ≠ key name := by
  simp [contains, get?]

theorem contains_foldl_insert {f : Field} (h : f ∈ fields) :
    (fields.foldl insert t).contains f.name = true := by
  rw [contains, get?_foldl_insert, Option.isSome_or, Bool.or_eq_true, List.find?_isSome]
  exact .inr ⟨f, h, beq_self_eq_true _⟩

theorem foldl_insert_of_contains (h : ∀ f ∈ fields, t.contains f.name = true) :
    fields.foldl insert t = t := by
  induction fields with
  | nil => rfl
  | cons f fields ih =>
    rw [List.forall_mem_cons] at h
    have hf : t.insert f = t := dif_pos h.1
    rw [List.foldl_cons, hf, ih h.2]

end FieldTable

/-- All that there is to see of a response without a reason of its own. -/
structure Response.Shows (r : Response) (code : UInt16) (fields : List Field)
    (contentType : String) (body : Bytes) : Prop where
  status : r.status = ⟨code⟩
  reason : r.givenReason = none
  fields : r.headers.fields = fields
  contentType : r.contentType = contentType
  body : r.body = body

def lengthFields (body : Bytes) : List Field :=
  if body.isEmpty then [] else [⟨"Content-Length", Nat.repr body.length⟩]

def addedNames : List String :=
  ["Content-Type", "Content-Length", "Server", "Connection", "X-Framework"]

theorem pairwise_of_names {fields : List Field} (h : (fields.map (·.name)).Sublist addedNames) :
    fields.Pairwise fun a b ↦ a.name.toLower ≠ b.name.toLower := by
  have hall : addedNames.Pairwise fun a b ↦ ¬SameWord a b := by decide
  have hnames : (fields.map (·.name)).Pairwise fun a b ↦ ¬SameWord a b := hall.sublist h
  exact (List.pairwise_map.1 hnames).imp id

theorem map_name_lengthFields (body : Bytes) :
    (lengthFields body).map (·.name) = if body.isEmpty then [] else ["Content-Length"] := by
  unfold lengthFields
  split <;> rfl

theorem Message.withContentLength_eq (m : Message) :
    m.withContentLength =
      { m with headers := (lengthFields m.body).foldl FieldTable.insert m.headers } := by
  unfold withContentLength lengthFields
  cases m.body.isEmpty <;> rfl

namespace Response

theorem withContentLength_eq (r : Response) :
    r.withContentLength =
      { r with headers := (lengthFields r.body).foldl FieldTable.insert r.headers } := by
  rw [withContentLength, Message.withContentLength_eq]

theorem shows_notFound : notFound.Shows 404 [] "" [] := ⟨rfl, rfl, rfl, rfl, rfl⟩

theorem shows_methodNotAllowed (methods : List String) :
    (methodNotAllowed methods).Shows 405 [⟨"Allow", ", ".intercalate methods⟩] "" [] :=
  ⟨rfl, rfl, rfl, rfl, rfl⟩

/-- A text as it is, with its type and, if there is anything of it, its length. -/
def ShowsText (r : Response) (code : UInt16) (text : String) : Prop :=
  r.Shows code (⟨"Content-Type", "text/plain"⟩ :: lengthFields (Bytes.ofText text)) "text/plain"
    (Bytes.ofText text)

theorem showsText_plainText (status : Status) (text : String) :
    (plainText status text).ShowsText status.code text := by
  let typed : Field := ⟨"Content-Type", "text/plain"⟩
  let length := lengthFields (Bytes.ofText text)
  have hnames : ((typed :: length).map (·.name)).Sublist addedNames := by
    rw [List.map_cons, map_name_lengthFields]
    cases (Bytes.ofText text).isEmpty <;> decide
  have hfields : (length.foldl FieldTable.insert
      (FieldTable.empty.insert typed : Headers)).fields = typed :: length := by
    rw [← List.foldl_cons, ← FieldTable.ofList, FieldTable.fields_ofList,
      FieldTable.eraseDupsBy_sameName (pairwise_of_names hnames)]
  unfold plainText Draft.toResponse
  rw [Message.withContentLength_eq]
  exact ⟨rfl, rfl, hfields, rfl, rfl⟩

end Response

variable {σ : Type}

namespace Service

variable (s : Service σ)

def additions (body : Bytes) : List Field :=
  lengthFields body ++ (s.serverHeader.toList.map fun server ↦ ⟨"Server", server⟩) ++
    [⟨"Connection", "close"⟩, ⟨"X-Framework", frameworkId⟩]

theorem additions_pairwise (body : Bytes) :
    (s.additions body).Pairwise fun a b ↦ a.name.toLower ≠ b.name.toLower := by
  refine pairwise_of_names ?_
  have hserver : ((s.serverHeader.toList.map fun server ↦ (⟨"Server", server⟩ : Field)).map
      (·.name)) = if s.serverHeader.isSome then ["Server"] else [] := by
    cases s.serverHeader <;> rfl
  rw [additions, List.map_append, List.map_append, map_name_lengthFields, hserver]
  cases body.isEmpty <;> cases s.serverHeader.isSome <;> decide

theorem decorate_eq (r : Response) :
    s.decorate r =
      { r with headers := (s.additions r.body).foldl FieldTable.insert r.headers } := by
  unfold decorate additions
  rw [Response.withContentLength_eq, List.foldl_append, List.foldl_append]
  cases s.serverHeader <;> rfl

theorem fields_decorate (r : Response) :
    (s.decorate r).headers.fields = r.headers.fields ++ (s.additions r.body).filter
      fun f ↦ ∀ g ∈ r.headers.fields, ¬SameWord g.name f.name := by
  rw [decorate_eq, FieldTable.fields_foldl_insert_of_pairwise _ (s.additions_pairwise _)]
  congr 1
  refine List.filter_congr fun f _ ↦ Bool.eq_iff_iff.2 ?_
  rw [FieldTable.not_contains_iff, decide_eq_true_iff]
  rfl

theorem decorate_of_contains {r : Response}
    (h : ∀ f ∈ s.additions r.body, r.headers.contains f.name = true) : s.decorate r = r := by
  rw [decorate_eq, FieldTable.foldl_insert_of_contains h]

theorem decorate_decorate (r : Response) : s.decorate (s.decorate r) = s.decorate r := by
  refine s.decorate_of_contains fun f hf ↦ ?_
  rw [body_decorate] at hf
  rw [decorate_eq]
  exact FieldTable.contains_foldl_insert hf

/-- A response `d` is what is to be sent for `r`: what `r` says, then the headers that it lacks, and
nothing that would be added once more. -/
structure Completes (r d : Response) : Prop where
  status : d.status = r.status
  givenReason : d.givenReason = r.givenReason
  reason : d.reason = r.reason
  body : d.body = r.body
  contentType : d.contentType = r.contentType
  fields : d.headers.fields = r.headers.fields ++
    (s.additions r.body).filter fun f ↦ ∀ g ∈ r.headers.fields, ¬SameWord g.name f.name
  distinct : d.headers.fields.Pairwise fun f g ↦ ¬SameWord f.name g.name
  again : s.decorate d = d

theorem completes_decorate (r : Response) : s.Completes r (s.decorate r) where
  status := by rw [decorate_eq]
  givenReason := by rw [decorate_eq]
  reason := by rw [decorate_eq]; rfl
  body := s.body_decorate r
  contentType := by rw [decorate_eq]
  fields := s.fields_decorate r
  distinct := (s.decorate r).headers.distinct
  again := s.decorate_decorate r

open Registration (Offers last?)

/-- What is to be answered to a request after these registrations, and the state that is left. -/
inductive Undecorated (gs : List (Registration (Handler σ))) (request : Request) (state : σ) :
    Response → σ → Prop
  | notFound {r : Response} : (∀ g ∈ gs, ¬g.IsAt request.resource) → r.Shows 404 [] "" [] →
    Undecorated gs request state r state
  | methodNotAllowed {methods : List String} {r : Response} :
    (∃ g ∈ gs, g.IsAt request.resource) →
    (∀ g ∈ gs, g.IsAt request.resource → ¬g.Names request.method) →
    Offers gs request.resource methods →
    r.Shows 405 [⟨"Allow", ", ".intercalate methods⟩] "" [] →
    Undecorated gs request state r state
  | response {handler : Handler σ} {r : Response} {after : σ} :
    last? gs request.resource request.method = some handler →
    handler request state = (.response r, after) → Undecorated gs request state r after
  | failure {handler : Handler σ} {text : String} {r : Response} {after : σ} :
    last? gs request.resource request.method = some handler →
    handler request state = (.failure text, after) → r.ShowsText 500 text →
    Undecorated gs request state r after
  | panic {handler : Handler σ} {message : Option String} {r : Response} {after : σ} :
    last? gs request.resource request.method = some handler →
    handler request state = (.panic message, after) →
    r.ShowsText 500 (message.getD "handler panicked") →
    Undecorated gs request state r after

theorem undecorated_respond (gs : List (Registration (Handler σ))) (server : Option String)
    (request : Request) (state : σ) :
    Undecorated gs request state
      (respond ⟨.ofRegistrations gs, server⟩ request state).1
      (respond ⟨.ofRegistrations gs, server⟩ request state).2 := by
  have hanswers := Routes.answers_find gs request.resource request.method
  unfold respond
  cases hf : (Routes.ofRegistrations gs).find request.resource request.method with
  | notFound =>
    rw [hf] at hanswers
    cases hanswers with
    | notFound hn => exact .notFound hn Response.shows_notFound
  | methodNotAllowed methods =>
    rw [hf] at hanswers
    cases hanswers with
    | methodNotAllowed he hm ho =>
      exact .methodNotAllowed he hm ho (Response.shows_methodNotAllowed methods)
  | handler handler =>
    rw [hf] at hanswers
    cases hanswers with
    | handler hl =>
      dsimp only
      cases ho : handler request state with
      | mk outcome after =>
        cases outcome with
        | response r => exact .response hl ho
        | failure text =>
          exact .failure hl ho (Response.showsText_plainText .internalServerError text)
        | panic message =>
          exact .panic hl ho (Response.showsText_plainText .internalServerError _)

end Service

namespace Connection

inductive Serves (s : Service σ) (c : Connection) (state : σ) : Connection × σ → Prop
  | pending {c' : Connection} : c.readRequest = (.pending, c') → Serves s c state (c', state)
  | request {request : Request} {r d : Response} {c' : Connection} {after : σ} :
    c.readRequest = (.request request, c') → s.respond request state = (r, after) →
    s.Completes r d → Serves s c state (c'.respond d, after)
  | fault {code : UInt16} {text : String} {r d : Response} {c' : Connection} :
    c.readRequest = (.fault r, c') → code = 400 ∨ code = 500 → r.ShowsText code text →
    s.Completes r d → Serves s c state (c'.respond d, state)

theorem showsText_of_readRequest {c c' : Connection} {r : Response}
    (h : c.readRequest = (.fault r, c')) :
    ∃ (code : UInt16) (text : String), (code = 400 ∨ code = 500) ∧ r.ShowsText code text := by
  unfold readRequest at h
  split at h
  · cases h
  · cases h
    exact ⟨400, _, .inl rfl, Response.showsText_plainText .badRequest _⟩
  · cases h
    exact ⟨500, _, .inr rfl, Response.showsText_plainText .internalServerError _⟩
  · cases h

theorem serves_serve (s : Service σ) (c : Connection) (state : σ) :
    c.Serves s state (c.serve s state) := by
  unfold serve
  cases h : c.readRequest with
  | mk event c' =>
    cases event with
    | pending => exact .pending h
    | request request => exact .request h rfl (s.completes_decorate _)
    | fault r =>
      obtain ⟨code, text, hcode, hr⟩ := showsText_of_readRequest h
      exact .fault h hcode hr (s.completes_decorate r)

end Connection

namespace Service

/-- Whatever becomes of a request, it is answered with what the routes and the handler say, and this
is only completed; so is the answer of a connection, also where it could not read a request. -/
theorem answers_are_only_completed (gs : List (Registration (Handler σ)))
    (server : Option String) (state : σ) :
    (∀ request : Request, ∃ (r d : Response) (after : σ),
      respond ⟨.ofRegistrations gs, server⟩ request state = (r, after) ∧
      Undecorated gs request state r after ∧
      dispatch ⟨.ofRegistrations gs, server⟩ request state = (d, after) ∧
      Completes ⟨.ofRegistrations gs, server⟩ r d) ∧
    ∀ c : Connection, c.Serves ⟨.ofRegistrations gs, server⟩ state
      (c.serve ⟨.ofRegistrations gs, server⟩ state) := by
  refine ⟨fun request ↦ ?_, fun c ↦ c.serves_serve _ state⟩
  exact ⟨_, _, _, rfl, undecorated_respond gs server request state, rfl, completes_decorate _ _⟩

end Service

end LocalHttp
