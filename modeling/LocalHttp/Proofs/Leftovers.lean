import LocalHttp.MessageParser
import LocalHttp.Proofs.RequestGrammar

namespace LocalHttp

open Incoming (Outcome announcedLength headerField read readRequest readResponse)

section Talk

variable {σ α : Type}

abbrev Log (α : Type) : Type := List (Outcome α × Buffer)

/-- Calls one after the other. The buffer for each may depend on all that the others gave. -/
def talk (parse : σ → Buffer → Outcome α × σ × Buffer) (choose : Log α → Buffer) :
    ℕ → σ → Log α → Log α × σ
  | 0, s, log => (log, s)
  | n + 1, s, log =>
    match parse s (choose log) with
    | (outcome, after, rest) => talk parse choose n after ((outcome, rest) :: log)

/-- Behind a message or a fault all goes on as from the beginning. -/
def Forgets (parse : σ → Buffer → Outcome α × σ × Buffer) (new : σ) : Prop :=
  ∀ (before : Log α → Buffer) (n : ℕ) (last : Outcome α × Buffer) (log : Log α) (s : σ),
    talk parse before n new [] = (last :: log, s) → last.1 ≠ .incomplete →
      ∀ (later : Log α → Buffer) (m : ℕ),
        (talk parse later m s []).1 = (talk parse later m new []).1

variable {parse : σ → Buffer → Outcome α × σ × Buffer} {start : σ → Prop}

theorem start_of_talk (hstart : ∀ s b, (parse s b).1 ≠ .incomplete → start (parse s b).2.1)
    (choose : Log α → Buffer) (n : ℕ) (s : σ) (log : Log α)
    (h : ∀ last ∈ log.head?, last.1 ≠ .incomplete → start s) :
    ∀ last ∈ (talk parse choose n s log).1.head?, last.1 ≠ .incomplete →
      start (talk parse choose n s log).2 := by
  induction n generalizing s log with
  | zero => exact h
  | succ n ih =>
    refine ih _ _ fun last hlast hne ↦ ?_
    obtain rfl := Option.some.inj hlast
    exact hstart s (choose log) hne

/-- It is enough that from every start the next call goes like the first one. -/
theorem forgets_of_start {new : σ}
    (hstart : ∀ s b, (parse s b).1 ≠ .incomplete → start (parse s b).2.1)
    (hcongr : ∀ s b, start s → parse s b = parse new b) : Forgets parse new := by
  intro before n last log s htalk hlast later m
  have hs := start_of_talk hstart before n new [] nofun
  rw [htalk] at hs
  cases m with
  | zero => rfl
  | succ m => rw [talk, talk, hcongr s _ (hs last rfl hlast)]

end Talk

theorem Incoming.run_eq (s : Incoming) (b : Buffer) :
    s.run b =
      match s.step b with
      | .next after rest => after.run rest
      | .blocked after rest => .blocked after rest
      | .done message rest => .done message rest
      | .fault cause rest => .fault cause rest := by
  rw [run]
  split <;> rename_i h <;> simp only [h]

namespace MessageParser

theorem run_eq (p : MessageParser) (b : Buffer) :
    p.run b =
      match p.step b with
      | .next after rest => after.run rest
      | .blocked after rest => .blocked after rest
      | .complete after rest => .complete after rest
      | .fault cause after rest => .fault cause after rest := by
  rw [run]
  split <;> rename_i h <;> simp only [h]

variable {α : Type}

section Start

variable {finish : Taking MessageParser α} {p : MessageParser}

/-- The start of a message clears the memory. -/
theorem run_of_start (hp : p.phase = .start) (b : Buffer) :
    run p b = run { phase := .first } b := by
  rw [run_eq, step, hp]

theorem parse_of_start (hp : p.phase = .start) (b : Buffer) :
    parse finish p b = parse finish new b := by
  have hnew : new.phase = .start := rfl
  rw [parse, parse, run_of_start hp, run_of_start hnew]

end Start

section Take

variable {σ β : Type}

theorem run_bind (x : Taking σ α) (f : α → Taking σ β) (s : σ) :
    (x >>= f).run.run s =
      match x.run.run s with
      | (.ok a, after) => (f a).run.run after
      | (.error cause, after) => (.error cause, after) := by
  unfold ExceptT.run StateT.run
  simp only [bind, ExceptT.bind, ExceptT.mk, StateT.bind, ExceptT.bindCont]
  cases x s with
  | mk outcome after => cases outcome <;> rfl

theorem run_modifyGet (g : σ → α × σ) (s : σ) :
    (modifyGet g : Taking σ α).run.run s = (.ok (g s).1, (g s).2) := rfl

theorem run_lift (x : Except ReadFault α) (s : σ) : (liftM x : Taking σ α).run.run s = (x, s) := rfl

theorem outcome_lift_bind (x : Except ReadFault α) (f : α → Taking σ β) (s : σ) :
    (((liftM x : Taking σ α) >>= f).run.run s).1 = x >>= fun a ↦ ((f a).run.run s).1 := by
  rw [run_bind, run_lift]
  cases x <;> rfl

theorem outcome_modifyGet_bind (g : σ → α × σ) (f : α → Taking σ β) (s : σ) :
    (((modifyGet g : Taking σ α) >>= f).run.run s).1 = ((f (g s).1).run.run (g s).2).1 := rfl

theorem run_endHeaders (s : Scratch) :
    Scratch.endHeaders.run.run s =
      match announcedLength s.headers with
      | .ok length =>
        (.ok (),
          { s with length := length, contentType := (s.headers.value? "content-type").getD "" })
      | .error cause => (.error cause, s) := by
  have hget : (get : Taking Scratch Scratch).run.run s = (.ok s, s) := rfl
  unfold Scratch.endHeaders
  rw [run_bind, hget]
  dsimp only
  rw [run_bind, run_lift]
  cases announcedLength s.headers <;> rfl

theorem run_takeHeader (s : Scratch) :
    match headerField s.name s.value with
    | .ok field =>
      Scratch.takeHeader.run.run s =
        (.ok (), { s with name := [], value := [], headers := s.headers.insert field })
    | .error cause => ∃ left, Scratch.takeHeader.run.run s = (.error cause, left) := by
  unfold Scratch.takeHeader Scratch.takeField
  cases hn : readText s.name with
  | error cause =>
    have hf : headerField s.name s.value = .error cause := by
      rw [headerField, hn]
      rfl
    rw [hf]
    refine ⟨{ s with name := [] }, ?_⟩
    simp only [run_bind, run_modifyGet, run_lift, hn]
  | ok name =>
    cases hv : readText s.value with
    | error cause =>
      have hf : headerField s.name s.value = .error cause := by
        rw [headerField, hn, hv]
        rfl
      rw [hf]
      refine ⟨{ s with name := [], value := [] }, ?_⟩
      simp only [run_bind, run_modifyGet, run_lift, hn, hv]
    | ok value =>
      have hf : headerField s.name s.value =
          .ok ⟨name, String.ofList (value.toList.dropWhile Incoming.isPadding)⟩ := by
        rw [headerField, hn, hv]
        rfl
      rw [hf]
      simp only [run_bind, run_modifyGet, run_lift, hn, hv]
      rfl

def KeepsPhase (take : Taking MessageParser α) : Prop :=
  ∀ p : MessageParser, (take.run.run p).2.phase = p.phase

theorem keepsPhase_lift (x : Except ReadFault α) : KeepsPhase (liftM x) := fun _ ↦ rfl

theorem KeepsPhase.bind {x : Taking MessageParser α} {f : α → Taking MessageParser β}
    (hx : KeepsPhase x) (hf : ∀ a, KeepsPhase (f a)) : KeepsPhase (x >>= f) := by
  intro p
  have hp := hx p
  rw [run_bind]
  revert hp
  cases x.run.run p with
  | mk outcome after =>
    intro hp
    cases outcome with
    | ok a => exact (hf a after).trans hp
    | error cause => exact hp

theorem KeepsPhase.modifyGet {g : MessageParser → α × MessageParser}
    (hg : ∀ p, (g p).2.phase = p.phase) : KeepsPhase (modifyGet g) := hg

end Take

def message (p : MessageParser) : RawMessage :=
  ⟨⟨p.first, p.second, p.third⟩, p.scratch.headers, p.scratch.body.toList⟩

/-- What is made of a message at its end. It does not begin another one. -/
structure Finishes (finish : Taking MessageParser α) (ofRaw : RawMessage → Except ReadFault α) :
    Prop where
  outcome : ∀ p : MessageParser, p.scratch.contentType = p.message.contentType →
    (finish.run.run p).1 = ofRaw p.message
  keeps : KeepsPhase finish

theorem finishes_request : Finishes finishRequest Request.ofRaw where
  outcome p h := by
    unfold finishRequest Request.ofRaw
    simp only [outcome_modifyGet_bind, outcome_lift_bind]
    refine bind_congr fun method ↦ bind_congr fun target ↦ ?_
    unfold Request.Draft.ofTarget?
    cases Target.read target with
    | error cause => rfl
    | ok parts =>
      obtain ⟨resource, args⟩ := parts
      refine congrArg (fun d ↦ Except.ok (Request.Draft.toRequest d)) ?_
      rw [← h, FieldTable.empty_merge]
      rfl
  keeps := by
    refine .bind (.modifyGet fun _ ↦ rfl) fun _ ↦ .bind (keepsPhase_lift _) fun _ ↦
      .bind (.modifyGet fun _ ↦ rfl) fun _ ↦ .bind (keepsPhase_lift _) fun _ ↦
        .bind (.modifyGet fun _ ↦ rfl) fun _ ↦ .bind (keepsPhase_lift _) fun _ ↦ fun _ ↦ rfl

theorem finishes_response : Finishes finishResponse Response.ofRaw where
  outcome p h := by
    unfold finishResponse Response.ofRaw
    simp only [outcome_modifyGet_bind, outcome_lift_bind]
    refine bind_congr fun code ↦ bind_congr fun status ↦ bind_congr fun reason ↦ ?_
    refine congrArg (fun d ↦ Except.ok (Response.Draft.toResponse d)) ?_
    rw [← h, FieldTable.empty_merge]
    rfl
  keeps := by
    refine .bind (.modifyGet fun _ ↦ rfl) fun _ ↦ .bind (keepsPhase_lift _) fun _ ↦
      .bind (keepsPhase_lift _) fun _ ↦ .bind (.modifyGet fun _ ↦ rfl) fun _ ↦
        .bind (keepsPhase_lift _) fun _ ↦ .bind (.modifyGet fun _ ↦ rfl) fun _ ↦ fun _ ↦ rfl

section Finish

variable {finish : Taking MessageParser α} {p after : MessageParser} {b rest : Buffer}

theorem readToken_ne_complete {delimiter token : Bytes} {put : Bytes → MessageParser}
    {next : Phase} : readToken b delimiter token put next ≠ .complete after rest := by
  unfold readToken
  split <;> nofun

theorem takeScratch_ne_complete {take : Taking Scratch Unit} {next : Phase} :
    takeScratch p take next b ≠ .complete after rest := by
  unfold takeScratch
  split <;> nofun

theorem readName_ne_complete : readName p b ≠ .complete after rest := by
  unfold readName
  dsimp only
  split
  · nofun
  · split <;> nofun

theorem phase_of_step (h : step p b = .complete after rest) : after.phase = .start := by
  unfold step at h
  split at h
  · cases h
  · exact absurd h readToken_ne_complete
  · exact absurd h readToken_ne_complete
  · exact absurd h readToken_ne_complete
  · split at h
    · exact absurd h takeScratch_ne_complete
    · split at h
      · cases h
      · exact absurd h readName_ne_complete
  · dsimp only at h
    split at h
    · exact absurd h takeScratch_ne_complete
    · cases h
  · dsimp only at h
    split at h <;> cases h
    rfl

theorem phase_of_run (h : run p b = .complete after rest) : after.phase = .start := by
  induction hn : ahead p b using Nat.strongRecOn generalizing p b with
  | ind n ih =>
    rw [run_eq] at h
    cases hs : step p b with
    | next mid left =>
      rw [hs] at h
      exact ih _ (hn ▸ ahead_lt_of_step hs) h rfl
    | complete last left =>
      rw [hs] at h
      cases h
      exact phase_of_step hs
    | _ => rw [hs] at h; cases h

theorem phase_of_parse (hkeeps : KeepsPhase finish) (h : (parse finish p b).1 ≠ .incomplete) :
    (parse finish p b).2.1.phase = .start := by
  unfold parse at h ⊢
  cases hr : run p b with
  | blocked left rest => rw [hr] at h; exact absurd rfl h
  | fault cause left rest => rfl
  | complete left rest =>
    have hp := (hkeeps left).trans (phase_of_run hr)
    dsimp only
    split
    · rename_i hf
      rwa [hf] at hp
    · rfl

end Finish

section Memory

/-- What has been read of a message that is still arriving, with nothing left of another one. -/
def of : Incoming → MessageParser
  | .first token => { phase := .first, first := token }
  | .second initial token => { phase := .second, first := initial, second := token }
  | .third initial middle token =>
    { phase := .third, first := initial, second := middle, third := token }
  | .headerName line headers token =>
    { phase := .headerName, first := line.first, second := line.second, third := line.third,
      scratch := { name := token, headers := headers } }
  | .headerValue line headers name token =>
    { phase := .headerValue, first := line.first, second := line.second, third := line.third,
      scratch := { name := name, value := token, headers := headers } }
  | .body line headers length received =>
    { phase := .body, first := line.first, second := line.second, third := line.third,
      scratch :=
        { headers := headers, body := received, length := length,
          contentType := (headers.value? "content-type").getD "" } }

/-- A step of the parser that is in step with that of the arriving message. -/
inductive Follows : Incoming.Step → Step → Prop
  | next (s : Incoming) (rest : Buffer) : Follows (.next s rest) (.next (of s) rest)
  | blocked (s : Incoming) (rest : Buffer) : Follows (.blocked s rest) (.blocked (of s) rest)
  | done (p : MessageParser) (rest : Buffer) : p.scratch.contentType = p.message.contentType →
      Follows (.done p.message rest) (.complete p rest)
  | fault (cause : ReadFault) (p : MessageParser) (rest : Buffer) :
      Follows (.fault cause rest) (.fault cause p rest)

theorem follows_readToken (b : Buffer) (delimiter token : Bytes) (state after : Bytes → Incoming)
    {put : Bytes → MessageParser} {next : Phase} (hs : ∀ t, put t = of (state t))
    (ha : ∀ t, { put t with phase := next } = of (after t)) :
    Follows (Incoming.readToken b token delimiter state after)
      (readToken b delimiter token put next) := by
  unfold Incoming.readToken readToken
  obtain ⟨fragment, found, rest⟩ := b.takeToken delimiter
  cases found with
  | true =>
    dsimp only
    rw [ha]
    exact .next _ _
  | false =>
    dsimp only
    rw [hs]
    exact .blocked _ _

theorem follows_readName (line : StartLine) (headers : Headers) (token : Bytes) (b : Buffer) :
    Follows (Incoming.readName line headers token b)
      (readName (of (.headerName line headers token)) b) := by
  unfold Incoming.readName readName
  obtain ⟨fragment, found, rest⟩ := b.takeUntil Incoming.colon
  dsimp only
  split
  · exact .fault _ _ _
  · cases found with
    | true => exact .next _ _
    | false => exact .blocked _ _

theorem follows_endHeaders (line : StartLine) (headers : Headers) (rest : Buffer) :
    Follows (Incoming.endHeaders line headers rest)
      (takeScratch (of (.headerName line headers [])) Scratch.endHeaders .body rest) := by
  rw [takeScratch, run_endHeaders, Incoming.endHeaders, of]
  cases announcedLength headers with
  | ok length => exact .next (.body line headers length #[]) rest
  | error cause => exact .fault _ _ _

theorem follows_takeHeader (line : StartLine) (headers : Headers) (name value : Bytes)
    (rest : Buffer) :
    Follows
      (match headerField name value with
      | .ok field => .next (.headerName line (headers.insert field) []) rest
      | .error fault => .fault fault rest)
      (takeScratch (of (.headerValue line headers name value)) Scratch.takeHeader .headerName
        rest) := by
  have htake := run_takeHeader (of (.headerValue line headers name value)).scratch
  rw [takeScratch]
  cases hf : headerField name value with
  | ok field =>
    rw [of, hf] at htake
    rw [of, show _ = _ from htake]
    exact .next (.headerName line (headers.insert field) []) rest
  | error cause =>
    rw [of, hf] at htake
    obtain ⟨left, hleft⟩ := htake
    rw [of, hleft]
    exact .fault _ _ _

theorem follows_step (s : Incoming) (b : Buffer) : Follows (s.step b) (step (of s) b) := by
  cases s with
  | first token =>
    exact follows_readToken b _ token .first (fun t ↦ .second t []) (fun _ ↦ rfl) fun _ ↦ rfl
  | second initial token =>
    exact follows_readToken b _ token (.second initial) (fun t ↦ .third initial t [])
      (fun _ ↦ rfl) fun _ ↦ rfl
  | third initial middle token =>
    exact follows_readToken b _ token (.third initial middle)
      (fun t ↦ .headerName ⟨initial, middle, t⟩ .empty []) (fun _ ↦ rfl) fun _ ↦ rfl
  | headerName line headers token =>
    rw [Incoming.step, step, of]
    dsimp only
    split
    · rename_i h
      obtain rfl : token = [] := by simpa using (Bool.and_eq_true_iff.1 h).1
      exact follows_endHeaders line headers (b.skip 2)
    · split
      · exact .blocked (.headerName line headers token) b
      · exact follows_readName line headers token b
  | headerValue line headers name token =>
    rw [Incoming.step, step, of]
    dsimp only
    obtain ⟨fragment, found, rest⟩ := b.takeToken Incoming.lineBreak
    cases found with
    | true => exact follows_takeHeader line headers name (token ++ fragment) rest
    | false => exact .blocked (.headerValue line headers name (token ++ fragment)) rest
  | body line headers length received =>
    rw [Incoming.step, step, of]
    dsimp only
    obtain ⟨fragment, rest⟩ := b.take (length - received.size)
    dsimp only
    split
    · exact .done
        { of (.body line headers length (received ++ fragment)) with phase := .start } rest rfl
    · exact .blocked (.body line headers length (received ++ fragment)) rest

inductive RunFollows : Incoming.Run → Run → Prop
  | blocked (s : Incoming) (rest : Buffer) : RunFollows (.blocked s rest) (.blocked (of s) rest)
  | done (p : MessageParser) (rest : Buffer) : p.scratch.contentType = p.message.contentType →
      RunFollows (.done p.message rest) (.complete p rest)
  | fault (cause : ReadFault) (p : MessageParser) (rest : Buffer) :
      RunFollows (.fault cause rest) (.fault cause p rest)

theorem runFollows_run (s : Incoming) (b : Buffer) : RunFollows (s.run b) (run (of s) b) := by
  induction hn : b.length using Nat.strongRecOn generalizing s b with
  | ind n ih =>
    have hs := follows_step s b
    rw [Incoming.run_eq, run_eq]
    generalize hi : s.step b = i at hs ⊢
    generalize step (of s) b = q at hs ⊢
    cases hs with
    | next after rest => exact ih _ (hn ▸ Incoming.length_lt_of_step hi) after rest rfl
    | blocked after rest => exact .blocked after rest
    | done p rest hc => exact .done p rest hc
    | fault cause p rest => exact .fault cause p rest

/-- The memory holds nothing but what has been read of the message, or the message has not begun. -/
inductive Continues : MessageParser → Incoming → Prop
  | within (s : Incoming) : Continues (of s) s
  | start (p : MessageParser) : p.phase = .start → Continues p .fresh

theorem Continues.run {p : MessageParser} {s : Incoming} (h : Continues p s) (b : Buffer) :
    RunFollows (s.run b) (p.run b) := by
  cases h with
  | within => exact runFollows_run s b
  | start _ hp =>
    rw [run_of_start hp]
    exact runFollows_run .fresh b

theorem Continues.parse {finish : Taking MessageParser α} {ofRaw : RawMessage → Except ReadFault α}
    (hfinish : Finishes finish ofRaw) {p : MessageParser} {s : Incoming} (h : Continues p s)
    (b : Buffer) :
    (parse finish p b).1 = (read ofRaw s b).1 ∧
      Continues (parse finish p b).2.1 (read ofRaw s b).2.1 ∧
      (parse finish p b).2.2 = (read ofRaw s b).2.2 := by
  have hrun := h.run b
  unfold MessageParser.parse Incoming.read
  generalize s.run b = i at hrun ⊢
  generalize hq : p.run b = q at hrun ⊢
  cases hrun with
  | blocked after rest => exact ⟨rfl, .within after, rfl⟩
  | fault cause left rest => exact ⟨rfl, .start _ rfl, rfl⟩
  | done last rest hc =>
    have ho := hfinish.outcome last hc
    have hk := (hfinish.keeps last).trans (phase_of_run hq)
    dsimp only
    generalize finish.run.run last = x at ho hk ⊢
    obtain ⟨outcome, left⟩ := x
    obtain rfl : outcome = ofRaw last.message := ho
    cases ofRaw last.message with
    | ok m => exact ⟨rfl, .start left hk, rfl⟩
    | error cause => exact ⟨rfl, .start _ rfl, rfl⟩

theorem Continues.talk {finish : Taking MessageParser α} {ofRaw : RawMessage → Except ReadFault α}
    (hfinish : Finishes finish ofRaw) {p : MessageParser} {s : Incoming} (h : Continues p s)
    (choose : Log α → Buffer) (n : ℕ) (log : Log α) :
    (talk (MessageParser.parse finish) choose n p log).1 =
      (talk (read ofRaw) choose n s log).1 := by
  induction n generalizing p s log with
  | zero => rfl
  | succ n ih =>
    obtain ⟨ho, hs, hr⟩ := h.parse hfinish (choose log)
    rw [LocalHttp.talk, LocalHttp.talk, ih hs, ho, hr]

end Memory

theorem forgets_parse {finish : Taking MessageParser α} (hkeeps : KeepsPhase finish) :
    Forgets (parse finish) new :=
  forgets_of_start (fun _ _ ↦ phase_of_parse hkeeps) fun _ b hp ↦ parse_of_start hp b

end MessageParser

theorem Incoming.state_of_read {α : Type} {ofRaw : RawMessage → Except ReadFault α} {s : Incoming}
    {b : Buffer} (h : (read ofRaw s b).1 ≠ .incomplete) : (read ofRaw s b).2.1 = .fresh := by
  unfold Incoming.read at h ⊢
  cases hr : s.run b with
  | blocked after rest => rw [hr] at h; exact absurd rfl h
  | fault cause rest => rfl
  | done raw rest =>
    dsimp only
    split <;> rfl

theorem Incoming.forgets_read {α : Type} (ofRaw : RawMessage → Except ReadFault α) :
    Forgets (read ofRaw) .fresh :=
  forgets_of_start (fun _ _ ↦ state_of_read) fun _ b hs ↦ congrArg (read ofRaw · b) hs

open MessageParser (finishes_request finishes_response forgets_parse parseRequest parseResponse)

/-- Whatever has been read and however it has ended, behind a message and behind a fault both
parsers do what new ones do, on all that comes then. All goes as if there were nothing in their
memory but what has been read of the message that is arriving. -/
theorem messages_leave_nothing :
    Forgets parseRequest .new ∧ Forgets parseResponse .new ∧
    Forgets readRequest .fresh ∧ Forgets readResponse .fresh ∧
    (∀ (choose : Log Request → Buffer) (n : ℕ),
      (talk parseRequest choose n .new []).1 = (talk readRequest choose n .fresh []).1) ∧
    ∀ (choose : Log Response → Buffer) (n : ℕ),
      (talk parseResponse choose n .new []).1 = (talk readResponse choose n .fresh []).1 :=
  ⟨forgets_parse finishes_request.keeps, forgets_parse finishes_response.keeps,
    Incoming.forgets_read _, Incoming.forgets_read _,
    fun choose n ↦ (MessageParser.Continues.start _ rfl).talk finishes_request choose n [],
    fun choose n ↦ (MessageParser.Continues.start _ rfl).talk finishes_response choose n []⟩

def badLength : Bytes := Bytes.ofText "P / H\r\ncontent-length: x\r\n\r\nP"

theorem messages_leave_nothing_of_badLength :
    ∃ p : MessageParser, talk parseRequest (fun _ ↦ .ofBytes badLength) 1 .new [] =
        ([(.fault (.contentLength "x"), ⟨badLength.dropLast.reverse, Bytes.ofText "P", []⟩)], p) ∧
      p.first = Bytes.ofText "P" ∧ p.scratch.headers.fields = [⟨"content-length", "x"⟩] ∧
      ∀ (later : Log Request → Buffer) (m : ℕ),
        (talk parseRequest later m p []).1 = (talk parseRequest later m .new []).1 := by
  let p := (parseRequest .new (.ofBytes badLength)).2.1
  have htalk : talk parseRequest (fun _ ↦ .ofBytes badLength) 1 .new [] =
      ([(.fault (.contentLength "x"), ⟨badLength.dropLast.reverse, Bytes.ofText "P", []⟩)], p) := by
    decide +kernel
  refine ⟨p, htalk, by decide +kernel, by decide +kernel, fun later m ↦ ?_⟩
  exact messages_leave_nothing.1 _ 1 _ [] p htalk nofun later m

end LocalHttp
