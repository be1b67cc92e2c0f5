import LocalHttp.Proofs.Leftovers
import LocalHttp.Proofs.Reencoding
import LocalHttp.Proofs.Room
import LocalHttp.Proofs.Seeking

namespace LocalHttp

open Incoming

namespace Buffer

variable {b rest : Buffer} {delimiter token : Bytes}

theorem unread_takeUntil {found : Bool} (h : b.takeUntil delimiter = (token, found, rest)) :
    b.unread = token ++ rest.unread := by
  rw [takeUntil_eq, Prod.mk.injEq, Prod.mk.injEq] at h
  obtain ⟨rfl, -, rfl⟩ := h
  exact (List.take_append_drop _ _).symm

theorem unread_takeToken_missing (h : b.takeToken delimiter = (token, false, rest)) :
    b.unread = token ++ rest.unread := by
  unfold takeToken at h
  split at h
  · cases h
  · rename_i hu
    cases h
    exact unread_takeUntil hu

theorem unread_takeToken_found (h : b.takeToken delimiter = (token, true, rest)) :
    b.unread = token ++ (delimiter ++ rest.unread) := by
  unfold takeToken at h
  split at h
  · rename_i left hu
    obtain ⟨v, hv⟩ := isPrefix_of_takeUntil hu
    cases h
    rw [unread_takeUntil hu, unread_skip, ← hv, List.drop_left]
  · cases h

def takenTo (b rest : Buffer) : Bytes := b.unread.take (b.length - rest.length)

theorem takenTo_eq {more : Bytes} (h : b.unread = more ++ rest.unread) : b.takenTo rest = more := by
  rw [takenTo, length, length, h, List.length_append, Nat.add_sub_cancel, List.take_left]

end Buffer

namespace MessageText

def head (line : StartLine) (lines : List Field) : Bytes :=
  line.first ++ (space ++ (line.second ++ (space ++ (line.third ++
    (lineBreak ++ lines.flatMap Field.line)))))

theorem bytes_eq (t : MessageText) : t.bytes = head t.line t.lines ++ (lineBreak ++ t.body) := by
  simp only [bytes, head, List.append_assoc]

theorem bytes_append (t : MessageText) (more : Bytes) :
    t.bytes ++ more = bytes ⟨t.line, t.lines, t.body ++ more⟩ := by
  simp only [bytes, List.append_assoc]

theorem head_append_line (line : StartLine) (lines : List Field) (f : Field) :
    head line (lines ++ [f]) = head line lines ++ f.line := by
  simp only [head, List.flatMap_append, List.flatMap_singleton, List.append_assoc]

/-- The body is as long as the first header line for its length says. -/
def Announced (t : MessageText) (length : Nat) : Prop :=
  Announces (t.lines.map Field.stripped) length

theorem Announced.lt {t : MessageText} {length : Nat} (h : t.Announced length) :
    length < Nat.pow 2 64 := by
  unfold Announced Announces at h
  split at h
  · rw [h]
    decide
  · obtain ⟨_, _, _, _, _, hlt⟩ := h
    exact hlt

end MessageText

theorem FieldTable.ofList_append_singleton {key : String → String} (fields : List Field)
    (f : Field) : (ofList (fields ++ [f]) : FieldTable key) = (ofList fields).insert f := by
  rw [ofList, ofList, List.foldl_append, List.foldl_cons, List.foldl_nil]

namespace Incoming

/-- All that has been taken since the message began is the text of what is held of it. -/
def Spells (taken : Bytes) : Incoming → Prop
  | .first token => taken = token
  | .second initial token => taken = initial ++ (space ++ token)
  | .third initial middle token => taken = initial ++ (space ++ (middle ++ (space ++ token)))
  | .headerName line headers token =>
    ∃ lines : List Field, headers = .ofList (lines.map Field.stripped) ∧
      taken = MessageText.head line lines ++ token
  | .headerValue line headers name token =>
    ∃ lines : List Field, headers = .ofList (lines.map Field.stripped) ∧
      taken = MessageText.head line lines ++ (name ++ (colon ++ token))
  | .body line headers length received =>
    ∃ t : MessageText, taken = t.bytes ∧ t.raw = ⟨line, headers, received.toList⟩ ∧
      t.Announced length

def Step.Spells (taken : Bytes) (b : Buffer) : Step → Prop
  | .next after rest | .blocked after rest =>
    ∃ more, b.unread = more ++ rest.unread ∧ after.Spells (taken ++ more)
  | .done raw rest =>
    ∃ more, b.unread = more ++ rest.unread ∧
      ∃ t : MessageText, taken ++ more = t.bytes ∧ t.raw = raw ∧ t.Announced t.body.length
  | .fault _ rest => ∃ more, b.unread = more ++ rest.unread

def Run.Spells (taken : Bytes) (b : Buffer) : Run → Prop
  | .blocked after rest => Step.Spells taken b (.blocked after rest)
  | .done raw rest => Step.Spells taken b (.done raw rest)
  | .fault cause rest => Step.Spells taken b (.fault cause rest)

variable {taken : Bytes}

theorem spells_readToken {token delimiter : Bytes} {state next : Bytes → Incoming} (b : Buffer)
    (hs : ∀ fragment, (state (token ++ fragment)).Spells (taken ++ fragment))
    (hn : ∀ fragment, (next (token ++ fragment)).Spells (taken ++ (fragment ++ delimiter))) :
    (readToken b token delimiter state next).Spells taken b := by
  unfold readToken
  split <;> rename_i fragment rest ht
  · refine ⟨fragment ++ delimiter, ?_, hn fragment⟩
    rw [Buffer.unread_takeToken_found ht, List.append_assoc]
  · exact ⟨fragment, Buffer.unread_takeToken_missing ht, hs fragment⟩

theorem spells_readName {line : StartLine} {headers : Headers} {token : Bytes} (b : Buffer)
    (h : (headerName line headers token).Spells taken) :
    (readName line headers token b).Spells taken b := by
  obtain ⟨lines, hl, rfl⟩ := h
  unfold readName
  split
  rename_i fragment found rest ht
  split
  · exact ⟨fragment, Buffer.unread_takeUntil ht⟩
  · split
    · -- the colon, which is still in front, is taken with the name
      rename_i hf
      subst hf
      obtain ⟨v, hv⟩ := Buffer.isPrefix_of_takeUntil ht
      have hrest : (rest.skip 1).unread = v := by
        rw [Buffer.unread_skip, ← hv]
        rfl
      refine ⟨fragment ++ colon, ?_, lines, hl, ?_⟩
      · rw [Buffer.unread_takeUntil ht, hrest, ← hv, List.append_assoc]
      · simp only [List.append_assoc, List.append_nil]
    · refine ⟨fragment, Buffer.unread_takeUntil ht, lines, hl, ?_⟩
      rw [List.append_assoc]

theorem spells_endHeaders {line : StartLine} {headers : Headers} (b : Buffer)
    (h : (headerName line headers []).Spells taken) (hb : b.peek 2 = lineBreak) :
    (endHeaders line headers (b.skip 2)).Spells taken b := by
  obtain ⟨lines, rfl, rfl⟩ := h
  have hu : b.unread = lineBreak ++ (b.skip 2).unread := by
    rw [← hb, Buffer.peek, Buffer.unread_skip, List.take_append_drop]
  unfold endHeaders
  split <;> rename_i ha
  · refine ⟨lineBreak, hu, ⟨line, lines, []⟩, ?_, rfl, announcedLength_ofList.1 ha⟩
    rw [MessageText.bytes_eq, List.append_nil, List.append_nil]
  · exact ⟨lineBreak, hu⟩

theorem spells_headerValue {line : StartLine} {headers : Headers} {name token : Bytes} (b : Buffer)
    (h : (headerValue line headers name token).Spells taken) :
    (step (headerValue line headers name token) b).Spells taken b := by
  obtain ⟨lines, rfl, rfl⟩ := h
  rw [step]
  split <;> rename_i fragment rest ht
  · refine ⟨fragment, Buffer.unread_takeToken_missing ht, lines, rfl, ?_⟩
    simp only [List.append_assoc]
  · have hu : b.unread = fragment ++ lineBreak ++ rest.unread := by
      rw [Buffer.unread_takeToken_found ht, List.append_assoc]
    split <;> rename_i hf
    · obtain ⟨f, rfl, hv, rfl⟩ := headerField_eq_ok_iff.1 hf
      refine ⟨fragment ++ lineBreak, hu, lines ++ [f], ?_, ?_⟩
      · rw [List.map_append, List.map_singleton, FieldTable.ofList_append_singleton]
      · rw [MessageText.head_append_line, Field.line, ← hv]
        simp only [List.append_assoc, List.append_nil]
    · exact ⟨fragment ++ lineBreak, hu⟩

theorem spells_body {line : StartLine} {headers : Headers} {length : Nat} {received : Array UInt8}
    (b : Buffer) (h : (body line headers length received).Spells taken) :
    (step (body line headers length received) b).Spells taken b := by
  obtain ⟨⟨line, lines, _⟩, rfl, ht, ha⟩ := h
  obtain ⟨rfl, rfl, rfl⟩ := RawMessage.mk.inj ht
  let fragment := b.peek (length - received.size)
  have hu : b.unread = fragment ++ (b.skip (length - received.size)).unread :=
    (List.take_append_drop _ _).symm
  let t : MessageText := ⟨line, lines, (received ++ fragment).toList⟩
  have htext : MessageText.bytes ⟨line, lines, received.toList⟩ ++ fragment = t.bytes := by
    rw [MessageText.bytes_append, ← Array.toList_appendList]
  rw [step]
  dsimp only [Buffer.take]
  split
  · rename_i hl
    have hlength : t.body.length = length := hl
    exact ⟨fragment, hu, t, htext, rfl, hlength.symm ▸ ha⟩
  · exact ⟨fragment, hu, t, htext, rfl, ha⟩

/-- No step takes anything but what it holds then, or the delimiter behind it. -/
theorem spells_step {s : Incoming} (h : s.Spells taken) (b : Buffer) :
    (step s b).Spells taken b := by
  cases s with
  | first token =>
    obtain rfl := h
    rw [step]
    refine spells_readToken b (fun _ ↦ rfl) fun _ ↦ ?_
    rw [Spells, List.append_nil, List.append_assoc]
  | second initial token =>
    obtain rfl := h
    rw [step]
    refine spells_readToken b (fun _ ↦ ?_) fun _ ↦ ?_ <;>
      simp only [Spells, List.append_assoc, List.append_nil]
  | third initial middle token =>
    obtain rfl := h
    rw [step]
    refine spells_readToken b (fun _ ↦ ?_) fun _ ↦ ⟨[], rfl, ?_⟩
    · simp only [Spells, List.append_assoc]
    · simp only [MessageText.head, List.flatMap_nil, List.append_assoc, List.append_nil]
  | headerName line headers token =>
    rw [step]
    split
    · rename_i hp
      rw [Bool.and_eq_true, List.isEmpty_iff, beq_iff_eq] at hp
      obtain ⟨rfl, hb⟩ := hp
      exact spells_endHeaders b h hb
    · split
      · exact ⟨[], rfl, by rwa [List.append_nil]⟩
      · exact spells_readName b h
  | headerValue line headers name token => exact spells_headerValue b h
  | body line headers length received => exact spells_body b h

theorem Run.Spells.behind {b rest : Buffer} {more : Bytes} {r : Run}
    (hu : b.unread = more ++ rest.unread) (h : r.Spells (taken ++ more) rest) :
    r.Spells taken b := by
  cases r with
  | blocked after last =>
    obtain ⟨later, hl, hs⟩ := h
    exact ⟨more ++ later, by rw [hu, hl, List.append_assoc], by rwa [← List.append_assoc]⟩
  | done raw last =>
    obtain ⟨later, hl, hs⟩ := h
    exact ⟨more ++ later, by rw [hu, hl, List.append_assoc], by rwa [← List.append_assoc]⟩
  | fault cause last =>
    obtain ⟨later, hl⟩ := h
    exact ⟨more ++ later, by rw [hu, hl, List.append_assoc]⟩

theorem spells_run {s : Incoming} (h : s.Spells taken) (b : Buffer) : (s.run b).Spells taken b := by
  induction hn : b.length using Nat.strongRecOn generalizing s taken b with
  | ind n ih =>
    have hs := spells_step h b
    rw [run_eq]
    cases hstep : s.step b with
    | next after rest =>
      rw [hstep] at hs
      obtain ⟨more, hu, ha⟩ := hs
      exact Run.Spells.behind hu (ih _ (hn ▸ length_lt_of_step hstep) ha rest rfl)
    | blocked after rest => rwa [hstep] at hs
    | done raw rest => rwa [hstep] at hs
    | fault cause rest => rwa [hstep] at hs

end Incoming

namespace MessageParser

variable {α : Type} {finish : Taking MessageParser α} {ofRaw : RawMessage → Except ReadFault α}
  {p q after : MessageParser} {b c rest : Buffer} {s : Incoming} {taken : Bytes}

/-- What a call comes through: the parser on its way, and what is left of the buffer there. -/
inductive Visits (p : MessageParser) (b : Buffer) : MessageParser → Buffer → Prop
  | here : Visits p b p b
  | next {q after : MessageParser} {c rest : Buffer} :
    Visits p b q c → step q c = .next after rest → Visits p b after rest

theorem Visits.run_eq (h : Visits p b q c) : run q c = run p b := by
  induction h with
  | here => rfl
  | @next q _ _ _ _ hs ih => rw [← ih, MessageParser.run_eq q, hs]

theorem Continues.next (h : Continues q s) (hs : step q c = .next after rest) :
    ∃ state, Continues after state ∧ (state = s ∧ rest = c ∨ s.step c = .next state rest) := by
  cases h with
  | within =>
    have hf := follows_step s c
    rw [hs] at hf
    generalize hi : s.step c = i at hf
    cases hf
    exact ⟨_, .within _, .inr rfl⟩
  | start _ hp =>
    rw [step, hp] at hs
    cases hs
    exact ⟨.fresh, .within .fresh, .inl ⟨rfl, rfl⟩⟩

theorem Visits.exists_state (hv : Visits p b q c) (hc : Continues p s) (hs : s.Sound)
    (ht : s.Spells taken) :
    ∃ state more, Continues q state ∧ state.Sound ∧ b.unread = more ++ c.unread ∧
      state.Spells (taken ++ more) := by
  induction hv with
  | here => exact ⟨s, [], hc, hs, rfl, by rwa [List.append_nil]⟩
  | @next _ _ c _ _ hstep ih =>
    obtain ⟨state, more, hq, hsound, hu, hspells⟩ := ih
    obtain ⟨onward, hafter, ⟨rfl, rfl⟩ | hnext⟩ := hq.next hstep
    · exact ⟨_, more, hafter, hsound, hu, hspells⟩
    · have h1 := sound_step hsound c
      have h2 := spells_step hspells c
      rw [hnext] at h1 h2
      obtain ⟨later, hl, hlater⟩ := h2
      exact ⟨onward, more ++ later, hafter, h1, by rw [hu, hl, List.append_assoc],
        by rwa [← List.append_assoc]⟩

structure InBody (taken : Bytes) (p : MessageParser) : Prop where
  text : ∃ t : MessageText, taken = t.bytes ∧ p.message = t.raw ∧ t.Announced p.scratch.length
  size_le : p.scratch.body.size ≤ p.scratch.length
  length_lt : p.scratch.length < Nat.pow 2 64

theorem Continues.inBody (h : Continues p s) (hs : s.Sound) (ht : s.Spells taken)
    (hp : p.phase = .body) : InBody taken p := by
  cases h with
  | start _ hstart => rw [hstart] at hp; cases hp
  | within =>
    cases s with
    | body line headers length received =>
      obtain ⟨t, hbytes, hraw, ha⟩ := ht
      exact ⟨⟨t, hbytes, hraw.symm, ha⟩, hs, ha.lt⟩
    | _ => cases hp

def Run.buffer : Run → Buffer
  | .blocked _ rest | .complete _ rest | .fault _ _ rest => rest

theorem unread_parse (finish : Taking MessageParser α) (p : MessageParser) (b : Buffer) :
    (parse finish p b).2.2.unread = (run p b).buffer.unread := by
  unfold parse
  cases run p b with
  | blocked after rest => exact Buffer.unread_realign rest
  | fault cause after rest => rfl
  | complete after rest =>
    dsimp only
    split <;> rfl

theorem buffer_run_of_body (hp : q.phase = .body) (c : Buffer) :
    (run q c).buffer = c.skip (q.scratch.length - q.scratch.body.size) := by
  rw [run_eq, step, hp]
  dsimp only [Buffer.take]
  split <;> rename_i h <;> split at h <;> cases h <;> rfl

/-- What makes a message takes the headers and the body out of the memory. -/
def Clears (finish : Taking MessageParser α) : Prop :=
  ∀ p m last, finish.run.run p = (.ok m, last) → last.scratch = {}

theorem Clears.bind {β : Type} {x : Taking MessageParser β} {f : β → Taking MessageParser α}
    (hf : ∀ a, Clears (f a)) : Clears (x >>= f) := by
  intro p m last h
  rw [run_bind] at h
  split at h
  · exact hf _ _ m last h
  · cases h

theorem clears_request : Clears finishRequest := by
  refine .bind fun _ ↦ .bind fun _ ↦ .bind fun _ ↦ .bind fun _ ↦ ?_
  intro p m last h
  rw [run_bind, run_modifyGet] at h
  dsimp only at h
  rw [run_bind, run_lift] at h
  split at h <;> rename_i hd
  · obtain ⟨-, rfl⟩ := Prod.mk.inj hd
    cases h
    rfl
  · cases h

theorem clears_response : Clears finishResponse := by
  refine .bind fun _ ↦ .bind fun _ ↦ .bind fun _ ↦ .bind fun _ ↦ .bind fun _ ↦ ?_
  intro p m last h
  cases h
  rfl

/-- A parser that calls have been made on, with what the last of them gave and with all that has
been taken of the message that this one was about. -/
structure History (α : Type) where
  parser : MessageParser := .new
  last? : Option (Incoming.Outcome α) := none
  taken : Bytes := []

namespace History

def arrived (h : History α) : Bytes :=
  match h.last? with
  | some .incomplete => h.taken
  | _ => []

def call (finish : Taking MessageParser α) (h : History α) (b : Buffer) : History α :=
  match parse finish h.parser b with
  | (outcome, after, rest) => ⟨after, some outcome, h.arrived ++ b.takenTo rest⟩

def ofCalls (finish : Taking MessageParser α) (buffers : List Buffer) : History α :=
  buffers.foldl (call finish) {}

inductive Stands (ofRaw : RawMessage → Except ReadFault α) : History α → Prop
  | new : Stands ofRaw {}
  | incomplete {s : Incoming} {taken : Bytes} : s.Sound → s.Spells taken →
    Stands ofRaw ⟨.of s, some .incomplete, taken⟩
  | message {p : MessageParser} {t : MessageText} {m : α} : p.phase = .start → p.scratch = {} →
    ofRaw t.raw = .ok m → t.Announced t.body.length → Stands ofRaw ⟨p, some (.message m), t.bytes⟩
  | fault {p : MessageParser} {cause : ReadFault} {taken : Bytes} : p.phase = .start →
    Stands ofRaw ⟨p, some (.fault cause), taken⟩

theorem Stands.exists_state {h : History α} (hs : Stands ofRaw h) :
    ∃ s, Continues h.parser s ∧ s.Sound ∧ s.Spells h.arrived := by
  cases hs with
  | new => exact ⟨.fresh, .start _ rfl, trivial, rfl⟩
  | @incomplete s _ hsound hspells => exact ⟨s, .within s, hsound, hspells⟩
  | message hp | fault hp => exact ⟨.fresh, .start _ hp, trivial, rfl⟩

theorem Stands.unread_eq {h : History α} (hs : Stands ofRaw h) (b : Buffer) :
    b.unread = b.takenTo (parse finish h.parser b).2.2 ++ (parse finish h.parser b).2.2.unread := by
  obtain ⟨s, hc, -, ht⟩ := hs.exists_state
  have hrun := hc.run b
  have hspells := spells_run ht b
  obtain ⟨more, hu⟩ : ∃ more, b.unread = more ++ (run h.parser b).buffer.unread := by
    generalize s.run b = i at hrun hspells
    generalize run h.parser b = r at hrun ⊢
    cases hrun with
    | blocked | done => obtain ⟨more, hu, -⟩ := hspells; exact ⟨more, hu⟩
    | fault => exact hspells
  rw [← unread_parse finish] at hu
  rwa [Buffer.takenTo_eq hu]

theorem Stands.call (hfinish : Finishes finish ofRaw) (hclears : Clears finish) {h : History α}
    (hs : Stands ofRaw h) (b : Buffer) : Stands ofRaw (h.call finish b) := by
  obtain ⟨s, hc, hsound, ht⟩ := hs.exists_state
  have hread := reading_run s b
  have hrun := hc.run b
  have hspells := spells_run ht b
  unfold History.call parse
  generalize hi : s.run b = i at hread hrun hspells
  generalize hr : run h.parser b = r at hrun ⊢
  cases hrun with
  | blocked after rest =>
    obtain ⟨more, hu, ha⟩ := hspells
    have hu' : b.unread = more ++ rest.realign.unread := by rwa [Buffer.unread_realign]
    dsimp only
    rw [Buffer.takenTo_eq hu']
    exact .incomplete (blocked_reading hsound hread.symm).2 ha
  | fault cause last rest => exact .fault rfl
  | done last rest hcontent =>
    obtain ⟨more, hu, t, hbytes, hraw, ha⟩ := hspells
    have ho := hfinish.outcome last hcontent
    have hphase := (hfinish.keeps last).trans (phase_of_run hr)
    have hclear := hclears last
    dsimp only
    generalize finish.run.run last = x at ho hphase hclear ⊢
    obtain ⟨outcome, left⟩ := x
    cases outcome with
    | error cause => exact .fault rfl
    | ok m =>
      rw [← hraw] at ho
      dsimp only
      rw [Buffer.takenTo_eq hu, hbytes]
      exact .message hphase (hclear m left rfl) ho.symm ha

theorem stands_ofCalls (hfinish : Finishes finish ofRaw) (hclears : Clears finish)
    (buffers : List Buffer) : Stands ofRaw (ofCalls finish buffers) := by
  suffices hall : ∀ h : History α, Stands ofRaw h →
      Stands ofRaw (buffers.foldl (History.call finish) h) from hall {} .new
  induction buffers with
  | nil => exact fun _ h ↦ h
  | cons b buffers ih => exact fun _ h ↦ ih _ (h.call hfinish hclears b)

/-- What is held after some calls, and what can be said of every further call. -/
structure Counts (finish : Taking MessageParser α) (toMessage : α → Message) (h : History α) :
    Prop where
  body_empty : h.parser.phase ≠ .body →
    (h.parser.phase = .start → ∀ cause, h.last? ≠ some (.fault cause)) →
      h.parser.scratch.body = #[]
  value_empty : h.parser.phase = .headerName → h.parser.scratch.value = []
  inBody : h.parser.phase = .body → InBody h.taken h.parser
  /-- A call never counts below zero where it counts what is missing of a body, and it takes just
  this. -/
  remaining : ∀ (b : Buffer) (q : MessageParser) (c : Buffer), Visits h.parser b q c →
    q.phase = .body →
      (∃ more, b.unread = more ++ c.unread ∧ InBody (h.arrived ++ more) q) ∧
      (parse finish h.parser b).2.2.unread =
        c.unread.drop (q.scratch.length - q.scratch.body.size)
  message : ∀ m, h.last? = some (.message m) →
    ∃ t : MessageText, h.taken = t.bytes ∧ t.Announced t.body.length ∧
      toMessage m = ⟨t.body, t.raw.contentType, t.raw.headers⟩
  unread : ∀ b : Buffer, b.unread =
    b.takenTo (parse finish h.parser b).2.2 ++ (parse finish h.parser b).2.2.unread

theorem Stands.counts {toMessage : α → Message} {h : History α} (hs : Stands ofRaw h)
    (hmessage : ∀ (t : MessageText) (m : α), t.Announced t.body.length → ofRaw t.raw = .ok m →
      toMessage m = ⟨t.body, t.raw.contentType, t.raw.headers⟩) : Counts finish toMessage h where
  body_empty hbody hstart := by
    cases hs with
    | new => rfl
    | @incomplete s _ _ _ =>
      cases s with
      | body => exact absurd rfl hbody
      | _ => rfl
    | message _ hclear => exact congrArg Scratch.body hclear
    | @fault _ cause _ hp => exact absurd rfl (hstart hp cause)
  value_empty hp := by
    cases hs with
    | new => cases hp
    | @incomplete s _ _ _ =>
      cases s with
      | headerName => rfl
      | _ => cases hp
    | message hstart | fault hstart => rw [hstart] at hp; cases hp
  inBody hp := by
    cases hs with
    | new => cases hp
    | @incomplete s _ hsound hspells => exact (Continues.within s).inBody hsound hspells hp
    | message hstart | fault hstart => rw [hstart] at hp; cases hp
  remaining b q c hv hp := by
    obtain ⟨s, hc, hsound, ht⟩ := hs.exists_state
    obtain ⟨state, more, hq, hstate, hu, hspells⟩ := hv.exists_state hc hsound ht
    refine ⟨⟨more, hu, hq.inBody hstate hspells hp⟩, ?_⟩
    rw [unread_parse, ← hv.run_eq, buffer_run_of_body hp, Buffer.unread_skip]
  message m hm := by
    cases hs with
    | @message _ t _ _ _ hraw ha =>
      cases hm
      exact ⟨t, rfl, ha, hmessage t m ha hraw⟩
    | _ => cases hm
  unread b := hs.unread_eq b

end History

/-- Whatever calls are made on a parser, on whatever buffers, it holds no body but the one that is
arriving or has been refused, and never more of it than the first header for its length announces.
So it never counts below zero, a message has as many bytes as were announced, and what follows them
stays unread. -/
theorem bodies_are_as_long_as_announced (buffers : List Buffer) :
    (History.ofCalls finishRequest buffers).Counts finishRequest Request.toMessage ∧
      (History.ofCalls finishResponse buffers).Counts finishResponse Response.toMessage := by
  constructor
  · exact (History.stands_ofCalls finishes_request clears_request buffers).counts
      fun _ _ _ h ↦ (Request.ofRaw_eq_ok_iff.1 h).2.2
  · exact (History.stands_ofCalls finishes_response clears_response buffers).counts
      fun _ _ ha h ↦ (Response.ofRaw_eq ha h).1

def behindRefusal : List Buffer :=
  [.ofBytes (0xff :: Bytes.ofText " / H\r\ncontent-length: 1\r\n\r\nx"),
    .ofBytes (Bytes.ofText "P / H\r\ncontent-length: 2\r\n\r\na"), .ofBytes (Bytes.ofText "bc")]

def inTwoPieces : Request where
  method := "P"
  resource := "/"
  args := .empty
  headers := .ofList [⟨"content-length", "2"⟩]
  contentType := ""
  body := Bytes.ofText "ab"

theorem bodies_are_as_long_as_announced_behind_refusal :
    (History.ofCalls finishRequest (behindRefusal.take 1)).parser.scratch.body.toList = [0x78] ∧
      (History.ofCalls finishRequest behindRefusal).last? = some (.message inTwoPieces) ∧
      ∃ t : MessageText, t.bytes = Bytes.ofText "P / H\r\ncontent-length: 2\r\n\r\nab" ∧
        t.Announced t.body.length ∧
        inTwoPieces.toMessage = ⟨t.body, t.raw.contentType, t.raw.headers⟩ := by
  let h := History.ofCalls finishRequest behindRefusal
  have htaken : h.taken = Bytes.ofText "P / H\r\ncontent-length: 2\r\n\r\nab" := by decide +kernel
  have hlast : h.last? = some (.message inTwoPieces) := by decide +kernel
  obtain ⟨t, ht, hrest⟩ := (bodies_are_as_long_as_announced behindRefusal).1.message _ hlast
  exact ⟨by decide +kernel, hlast, t, ht.symm.trans htaken, hrest⟩

end MessageParser

end LocalHttp
