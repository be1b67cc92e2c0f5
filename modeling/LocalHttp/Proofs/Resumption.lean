import LocalHttp.Incoming
import LocalHttp.Proofs.Delimiter

namespace LocalHttp.Incoming

/-- What bytes make of a state, whatever else the buffer holds. What a fault leaves is open. -/
inductive Reading
  | blocked (state : Incoming) (rest : Bytes)
  | done (message : RawMessage) (rest : Bytes)
  | fault (cause : ReadFault)

def Run.reading : Run → Reading
  | .blocked state rest => .blocked state rest.unread
  | .done message rest => .done message rest.unread
  | .fault cause _ => .fault cause

def reading (s : Incoming) (bytes : Bytes) : Reading := (run s (.ofBytes bytes)).reading

theorem unread_ofBytes (bytes : Bytes) : (Buffer.ofBytes bytes).unread = bytes := rfl

/-- A step with nothing in its buffer but the unread bytes. -/
def Step.bare : Step → Step
  | .next state rest => .next state (.ofBytes rest.unread)
  | .blocked state rest => .blocked state (.ofBytes rest.unread)
  | .done message rest => .done message (.ofBytes rest.unread)
  | .fault cause rest => .fault cause (.ofBytes rest.unread)

theorem bare_readToken (token delimiter : Bytes) (state next : Bytes → Incoming) {b : Buffer}
    {u : Bytes} (hu : b.unread = u) :
    (readToken b token delimiter state next).bare =
      match Bytes.find? delimiter u with
      | some p =>
        .next (next (token ++ u.take p)) (.ofBytes ((u.drop p).drop delimiter.length))
      | none =>
        .blocked (state (token ++ u.take (Bytes.overlapFrom delimiter 0 u)))
          (.ofBytes (u.drop (Bytes.overlapFrom delimiter 0 u))) := by
  subst hu
  unfold readToken Buffer.takeToken Buffer.takeUntil Buffer.find?
  cases Bytes.find? delimiter b.unread <;> rfl

def hasBreak (bytes : Bytes) : Bool := bytes.contains carriageReturn || bytes.contains lineFeed

theorem hasBreak_append (a b : Bytes) : hasBreak (a ++ b) = (hasBreak a || hasBreak b) := by
  simp only [hasBreak, List.contains_append]
  ac_rfl

theorem bare_readName (line : StartLine) (headers : Headers) (token : Bytes) {b : Buffer}
    {u : Bytes} (hu : b.unread = u) :
    (readName line headers token b).bare =
      match Bytes.find? colon u with
      | some p =>
        if hasBreak (u.take p) then .fault .header (.ofBytes (u.drop p))
        else .next (.headerValue line headers (token ++ u.take p) []) (.ofBytes ((u.drop p).drop 1))
      | none =>
        if hasBreak u then .fault .header (.ofBytes [])
        else .blocked (.headerName line headers (token ++ u)) (.ofBytes []) := by
  subst hu
  unfold readName Buffer.takeUntil Buffer.find?
  cases hf : Bytes.find? colon b.unread with
  | some p => dsimp only [Buffer.peek]; unfold hasBreak; split <;> rfl
  | none =>
    have hk : Bytes.overlapFrom colon 0 b.unread = b.unread.length :=
      Bytes.overlapFrom_singleton hf
    dsimp only [Buffer.peek]
    rw [hk, List.take_length]
    unfold hasBreak
    split <;> simp [Step.bare, Buffer.skip]

theorem bare_endHeaders (line : StartLine) (headers : Headers) {rest : Buffer} {u : Bytes}
    (hu : rest.unread = u) :
    (endHeaders line headers rest).bare =
      match announcedLength headers with
      | .ok length => .next (.body line headers length #[]) (.ofBytes u)
      | .error cause => .fault cause (.ofBytes u) := by
  subst hu
  unfold endHeaders
  cases announcedLength headers <;> rfl

theorem bare_step_headerName (line : StartLine) (headers : Headers) (token : Bytes) {b : Buffer}
    {u : Bytes} (hu : b.unread = u) :
    (step (.headerName line headers token) b).bare =
      if token.isEmpty && u.take 2 == lineBreak then (endHeaders line headers (b.skip 2)).bare
      else if token.isEmpty && u.take 2 == [carriageReturn] then
        .blocked (.headerName line headers token) (.ofBytes u)
      else (readName line headers token b).bare := by
  subst hu
  rw [step, apply_ite Step.bare, apply_ite Step.bare]
  rfl

theorem bare_step_headerValue (line : StartLine) (headers : Headers) (name token : Bytes)
    {b : Buffer} {u : Bytes} (hu : b.unread = u) :
    (step (.headerValue line headers name token) b).bare =
      match Bytes.find? lineBreak u with
      | some p =>
        match headerField name (token ++ u.take p) with
        | .ok field =>
          .next (.headerName line (headers.insert field) []) (.ofBytes ((u.drop p).drop 2))
        | .error cause => .fault cause (.ofBytes ((u.drop p).drop 2))
      | none =>
        .blocked (.headerValue line headers name
            (token ++ u.take (Bytes.overlapFrom lineBreak 0 u)))
          (.ofBytes (u.drop (Bytes.overlapFrom lineBreak 0 u))) := by
  subst hu
  simp only [step, Buffer.takeToken, Buffer.takeUntil, Buffer.find?, Buffer.peek]
  cases Bytes.find? lineBreak b.unread with
  | some p => dsimp only; cases headerField name (token ++ b.unread.take p) <;> rfl
  | none => rfl

theorem bare_step_body (line : StartLine) (headers : Headers) (length : Nat)
    (received : Array UInt8) {b : Buffer} {u : Bytes} (hu : b.unread = u) :
    (step (.body line headers length received) b).bare =
      if (received ++ u.take (length - received.size)).size = length then
        .done ⟨line, headers, (received ++ u.take (length - received.size)).toList⟩
          (.ofBytes (u.drop (length - received.size)))
      else
        .blocked (.body line headers length (received ++ u.take (length - received.size)))
          (.ofBytes (u.drop (length - received.size))) := by
  subst hu
  rw [step, apply_ite Step.bare]
  rfl

theorem bare_step (s : Incoming) (b : Buffer) :
    (step s b).bare = (step s (.ofBytes b.unread)).bare := by
  have hb := unread_ofBytes b.unread
  cases s with
  | first token => rw [step, step, bare_readToken _ _ _ _ rfl, bare_readToken _ _ _ _ hb]
  | second initial token =>
    rw [step, step, bare_readToken _ _ _ _ rfl, bare_readToken _ _ _ _ hb]
  | third initial middle token =>
    rw [step, step, bare_readToken _ _ _ _ rfl, bare_readToken _ _ _ _ hb]
  | headerName line headers token =>
    rw [bare_step_headerName _ _ _ rfl, bare_step_headerName _ _ _ hb, bare_readName _ _ _ rfl,
      bare_readName _ _ _ hb, bare_endHeaders _ _ rfl, bare_endHeaders _ _ rfl]
    rfl
  | headerValue line headers name token =>
    rw [bare_step_headerValue _ _ _ _ rfl, bare_step_headerValue _ _ _ _ hb]
  | body line headers length received =>
    rw [bare_step_body _ _ _ _ rfl, bare_step_body _ _ _ _ hb]

theorem reading_run (s : Incoming) (b : Buffer) : (run s b).reading = reading s b.unread := by
  suffices h : ∀ n (s : Incoming) (b c : Buffer), b.length = n → b.unread = c.unread →
      (run s b).reading = (run s c).reading from h b.length s b (.ofBytes b.unread) rfl rfl
  intro n
  induction n using Nat.strongRecOn with
  | ind n ih =>
    intro s b c hn hu
    have hs := bare_step s b
    rw [hu, ← bare_step s c] at hs
    rw [run, run]
    split <;> split <;> rename_i hb _ _ hc <;> rw [hb, hc] at hs <;>
      simp only [Step.bare, Step.next.injEq, Step.blocked.injEq, Step.done.injEq,
        Step.fault.injEq, reduceCtorEq, Buffer.ofBytes, Buffer.mk.injEq, true_and, and_true] at hs
    · obtain ⟨rfl, hr⟩ := hs
      exact ih _ (hn ▸ length_lt_of_step hb) _ _ _ rfl hr
    · simp only [Run.reading, hs]
    · simp only [Run.reading, hs]
    · simp only [Run.reading, hs]

/-- How a step compares with the same step on more bytes: what is complete stays so, and what was
blocked goes on where it stopped. -/
def Step.Resumes (v : Bytes) : Step → Step → Prop
  | .next state rest, t => t = .next state (.ofBytes (rest.unread ++ v))
  | .blocked state rest, t => t = (step state (.ofBytes (rest.unread ++ v))).bare
  | .done message rest, t => t = .done message (.ofBytes (rest.unread ++ v))
  | .fault cause _, t => ∃ rest, t = .fault cause rest

theorem take_add_append {k : Nat} {u : Bytes} (hk : k ≤ u.length) (q : Nat) (v : Bytes) :
    (u ++ v).take (k + q) = u.take k ++ (u.drop k ++ v).take q := by
  rw [← List.drop_append_of_le_length hk, List.take_add, List.take_append_of_le_length hk]

theorem drop_add_append {k : Nat} {u : Bytes} (hk : k ≤ u.length) (q : Nat) (v : Bytes) :
    (u ++ v).drop (k + q) = (u.drop k ++ v).drop q := by
  rw [← List.drop_append_of_le_length hk, List.drop_drop]

theorem resumes_readToken (token delimiter u v : Bytes) (state next : Bytes → Incoming)
    (hs : ∀ t b, step (state t) b = readToken b t delimiter state next) :
    Step.Resumes v (step (state token) (.ofBytes u)).bare
      (step (state token) (.ofBytes (u ++ v))).bare := by
  rw [hs, hs, bare_readToken _ _ _ _ (unread_ofBytes u),
    bare_readToken _ _ _ _ (unread_ofBytes (u ++ v))]
  cases hf : Bytes.find? delimiter u with
  | some p =>
    have hle := Bytes.le_of_find? hf
    rw [Bytes.find?_append_of_some v hf]
    dsimp only [Step.Resumes, unread_ofBytes]
    rw [List.take_append_of_le_length (by omega), List.drop_append_of_le_length (by omega),
      List.drop_append_of_le_length (by rw [List.length_drop]; omega)]
  | none =>
    have hk := Bytes.overlapFrom_le delimiter u
    rw [Bytes.find?_append_of_none v hf]
    dsimp only [Step.Resumes, unread_ofBytes]
    rw [hs, bare_readToken _ _ _ _ (unread_ofBytes _)]
    cases Bytes.find? delimiter (u.drop (Bytes.overlapFrom delimiter 0 u) ++ v) with
    | some q =>
      dsimp only [Option.map_some]
      rw [take_add_append hk, drop_add_append hk, List.append_assoc]
    | none =>
      dsimp only [Option.map_none]
      rw [Bytes.overlapFrom_append, take_add_append hk, drop_add_append hk, List.append_assoc]

theorem resumes_headerValue (line : StartLine) (headers : Headers) (name token u v : Bytes) :
    Step.Resumes v (step (.headerValue line headers name token) (.ofBytes u)).bare
      (step (.headerValue line headers name token) (.ofBytes (u ++ v))).bare := by
  rw [bare_step_headerValue _ _ _ _ (unread_ofBytes u),
    bare_step_headerValue _ _ _ _ (unread_ofBytes (u ++ v))]
  cases hf : Bytes.find? lineBreak u with
  | some p =>
    have hle := Bytes.le_of_find? hf
    have hl : lineBreak.length = 2 := rfl
    rw [Bytes.find?_append_of_some v hf]
    dsimp only
    rw [List.take_append_of_le_length (by omega), List.drop_append_of_le_length (by omega),
      List.drop_append_of_le_length (by rw [List.length_drop]; omega)]
    cases headerField name (token ++ u.take p) with
    | ok field => rfl
    | error cause => exact ⟨_, rfl⟩
  | none =>
    have hk := Bytes.overlapFrom_le lineBreak u
    rw [Bytes.find?_append_of_none v hf]
    dsimp only [Step.Resumes, unread_ofBytes]
    rw [bare_step_headerValue _ _ _ _ (unread_ofBytes _)]
    cases Bytes.find? lineBreak (u.drop (Bytes.overlapFrom lineBreak 0 u) ++ v) with
    | some q =>
      dsimp only [Option.map_some]
      rw [take_add_append hk, drop_add_append hk, List.append_assoc]
    | none =>
      dsimp only [Option.map_none]
      rw [Bytes.overlapFrom_append, take_add_append hk, drop_add_append hk, List.append_assoc]

theorem size_appendList (received : Array UInt8) (fragment : Bytes) :
    (received ++ fragment).size = received.size + fragment.length := by
  rw [← Array.length_toList, Array.toList_appendList, List.length_append, Array.length_toList]

theorem appendList_append (received : Array UInt8) (fragment more : Bytes) :
    received ++ (fragment ++ more) = received ++ fragment ++ more :=
  Array.ext' (by simp only [Array.toList_appendList, List.append_assoc])

theorem resumes_body (line : StartLine) (headers : Headers) (length : Nat)
    (received : Array UInt8) (u v : Bytes) :
    Step.Resumes v (step (.body line headers length received) (.ofBytes u)).bare
      (step (.body line headers length received) (.ofBytes (u ++ v))).bare := by
  rw [bare_step_body _ _ _ _ (unread_ofBytes u), bare_step_body _ _ _ _ (unread_ofBytes (u ++ v))]
  by_cases hle : length - received.size ≤ u.length
  · rw [List.drop_append_of_le_length hle]
    simp only [List.take_append_of_le_length hle]
    by_cases hs : (received ++ u.take (length - received.size)).size = length
    · rw [if_pos hs, if_pos hs]
      rfl
    · have hz : length - received.size = 0 := by
        rw [size_appendList, List.length_take] at hs
        omega
      rw [if_neg hs, if_neg hs]
      simp only [hz, List.take_zero, Array.appendList_nil, List.drop_zero] at hs ⊢
      dsimp only [Step.Resumes, unread_ofBytes]
      rw [bare_step_body _ _ _ _ (unread_ofBytes (u ++ v)), hz]
      simp only [List.take_zero, Array.appendList_nil, List.drop_zero, if_neg hs]
  · have hu : u.take (length - received.size) = u := List.take_of_length_le (by omega)
    have hd : u.drop (length - received.size) = [] := List.drop_of_length_le (by omega)
    have hs : ¬(received ++ u).size = length := by
      rw [size_appendList]
      omega
    obtain ⟨q, hq⟩ : ∃ q, length - received.size = u.length + q :=
      ⟨_, (Nat.add_sub_of_le (by omega)).symm⟩
    have hq' : length - (received ++ u).size = q := by
      rw [size_appendList]
      omega
    simp only [hu, hd, if_neg hs]
    dsimp only [Step.Resumes, unread_ofBytes]
    rw [bare_step_body _ _ _ _ (unread_ofBytes ([] ++ v)), hq']
    simp only [hq, take_add_append (Nat.le_refl u.length), drop_add_append (Nat.le_refl u.length),
      List.take_length, List.drop_length, appendList_append]

theorem resumes_readName (line : StartLine) (headers : Headers) (token u v : Bytes)
    (hne : token ++ u ≠ []) :
    Step.Resumes v (readName line headers token (.ofBytes u)).bare
      (readName line headers token (.ofBytes (u ++ v))).bare := by
  rw [bare_readName _ _ _ (unread_ofBytes u), bare_readName _ _ _ (unread_ofBytes (u ++ v))]
  cases hf : Bytes.find? colon u with
  | some p =>
    have hle := Bytes.le_of_find? hf
    have hl : colon.length = 1 := rfl
    rw [Bytes.find?_append_of_some v hf]
    dsimp only
    rw [List.take_append_of_le_length (by omega), List.drop_append_of_le_length (by omega),
      List.drop_append_of_le_length (by rw [List.length_drop]; omega)]
    cases hasBreak (u.take p) with
    | true => exact ⟨_, rfl⟩
    | false => rfl
  | none =>
    have hk : Bytes.overlapFrom colon 0 u = u.length := Bytes.overlapFrom_singleton hf
    rw [Bytes.find?_append_of_none v hf, hk, List.drop_length, List.nil_append]
    -- a line break before the colon is a fault now, and still is when the colon has come
    cases hu : hasBreak u with
    | true =>
      cases Bytes.find? colon v with
      | some q =>
        have hq : hasBreak ((u ++ v).take (u.length + q)) = true := by
          rw [take_add_append (Nat.le_refl _), List.take_length, hasBreak_append, hu, Bool.true_or]
        dsimp only [Option.map_some]
        rw [hq]
        exact ⟨_, rfl⟩
      | none =>
        dsimp only [Option.map_none]
        rw [hasBreak_append, hu, Bool.true_or]
        exact ⟨_, rfl⟩
    | false =>
      have he : (token ++ u).isEmpty = false := by simpa using hne
      simp only [Bool.false_eq_true, ↓reduceIte, Step.Resumes, unread_ofBytes, List.nil_append]
      rw [bare_step_headerName _ _ _ (unread_ofBytes v), he]
      simp only [Bool.false_and, Bool.false_eq_true, ↓reduceIte]
      rw [bare_readName _ _ _ (unread_ofBytes v)]
      cases Bytes.find? colon v with
      | some q =>
        simp only [Option.map_some, take_add_append (Nat.le_refl u.length),
          drop_add_append (Nat.le_refl u.length), List.take_length, List.drop_length,
          List.nil_append, hasBreak_append, hu, Bool.false_or, List.append_assoc]
      | none => simp only [Option.map_none, hasBreak_append, hu, Bool.false_or, List.append_assoc]

/-- Two bytes tell whether a header line is the empty one, unless there is just a carriage
return. -/
theorem take_two_append {u : Bytes} (v : Bytes) (hu : u ≠ []) (h2 : u.take 2 ≠ lineBreak)
    (h1 : u.take 2 ≠ [carriageReturn]) :
    (u ++ v).take 2 ≠ lineBreak ∧ (u ++ v).take 2 ≠ [carriageReturn] := by
  match u with
  | [] => exact absurd rfl hu
  | [x] =>
    have hx : x ≠ carriageReturn := fun h ↦ h1 (by rw [h]; rfl)
    exact ⟨fun h ↦ hx (List.cons.inj h).1, fun h ↦ hx (List.cons.inj h).1⟩
  | x :: y :: u => exact ⟨h2, h1⟩

theorem resumes_headerName (line : StartLine) (headers : Headers) (token u v : Bytes) :
    Step.Resumes v (step (.headerName line headers token) (.ofBytes u)).bare
      (step (.headerName line headers token) (.ofBytes (u ++ v))).bare := by
  rw [bare_step_headerName _ _ _ (unread_ofBytes u)]
  by_cases h2 : (token.isEmpty && u.take 2 == lineBreak) = true
  · rw [if_pos h2]
    simp only [Bool.and_eq_true, beq_iff_eq] at h2
    have hl : 2 ≤ u.length := by
      have hl : (u.take 2).length = 2 := by rw [h2.2]; rfl
      rw [List.length_take] at hl
      omega
    rw [bare_step_headerName _ _ _ (unread_ofBytes (u ++ v)), List.take_append_of_le_length hl,
      h2.1, h2.2]
    simp only [beq_self_eq_true, Bool.and_self, ↓reduceIte]
    rw [bare_endHeaders _ _ (Buffer.unread_skip (.ofBytes u) 2),
      bare_endHeaders _ _ (Buffer.unread_skip (.ofBytes (u ++ v)) 2), unread_ofBytes,
      unread_ofBytes, List.drop_append_of_le_length hl]
    cases announcedLength headers with
    | ok length => rfl
    | error cause => exact ⟨_, rfl⟩
  · rw [if_neg h2]
    by_cases h1 : (token.isEmpty && u.take 2 == [carriageReturn]) = true
    · -- behind a carriage return alone the step gives back what it has got
      rw [if_pos h1]
      rfl
    · rw [if_neg h1]
      by_cases hne : token ++ u = []
      · obtain ⟨rfl, rfl⟩ := List.append_eq_nil_iff.1 hne
        rfl
      · have hs : (step (.headerName line headers token) (.ofBytes (u ++ v))).bare =
            (readName line headers token (.ofBytes (u ++ v))).bare := by
          rw [bare_step_headerName _ _ _ (unread_ofBytes (u ++ v))]
          cases ht : token.isEmpty with
          | false => rfl
          | true =>
            rw [List.isEmpty_iff] at ht
            subst ht
            simp only [List.isEmpty_nil, Bool.true_and, beq_iff_eq] at h1 h2 ⊢
            have hu : u ≠ [] := hne
            obtain ⟨h2', h1'⟩ := take_two_append v hu h2 h1
            rw [if_neg h2', if_neg h1']
        rw [hs]
        exact resumes_readName line headers token u v hne

theorem resumes_step (s : Incoming) (u v : Bytes) :
    Step.Resumes v (step s (.ofBytes u)).bare (step s (.ofBytes (u ++ v))).bare := by
  cases s with
  | first token =>
    exact resumes_readToken token space u v first (fun t ↦ second t []) fun _ _ ↦ rfl
  | second initial token =>
    exact resumes_readToken token space u v (second initial) (fun t ↦ third initial t [])
      fun _ _ ↦ rfl
  | third initial middle token =>
    exact resumes_readToken token lineBreak u v (third initial middle)
      (fun t ↦ headerName ⟨initial, middle, t⟩ .empty []) fun _ _ ↦ rfl
  | headerName line headers token => exact resumes_headerName line headers token u v
  | headerValue line headers name token => exact resumes_headerValue line headers name token u v
  | body line headers length received => exact resumes_body line headers length received u v

theorem reading_eq (s : Incoming) (u : Bytes) :
    reading s u =
      match (step s (.ofBytes u)).bare with
      | .next after rest => reading after rest.unread
      | .blocked after rest => .blocked after rest.unread
      | .done message rest => .done message rest.unread
      | .fault cause _ => .fault cause := by
  rw [reading, run]
  split <;> rename_i h <;> rw [congrArg Step.bare h]
  · exact reading_run _ _
  · rfl
  · rfl
  · rfl

/-- How reading compares with reading of more bytes. -/
def Reading.Resumes (v : Bytes) : Reading → Reading → Prop
  | .blocked state rest, t => t = reading state (rest ++ v)
  | .done message rest, t => t = .done message (rest ++ v)
  | .fault cause, t => t = .fault cause

/-- Reading some bytes and then more is reading all of them at once. -/
theorem resumes_reading (s : Incoming) (u v : Bytes) :
    Reading.Resumes v (reading s u) (reading s (u ++ v)) := by
  -- every step but the last takes a byte, and with more bytes behind it takes the same ones
  induction hn : u.length using Nat.strongRecOn generalizing s u with
  | ind n ih =>
    have hr := resumes_step s u v
    rw [reading_eq s u, reading_eq s (u ++ v)]
    cases hs : step s (.ofBytes u) with
    | next after rest =>
      rw [hs] at hr
      rw [show (step s (.ofBytes (u ++ v))).bare = _ from hr]
      exact ih rest.length (hn ▸ length_lt_of_step hs) after rest.unread rfl
    | blocked after rest =>
      rw [hs] at hr
      rw [show (step s (.ofBytes (u ++ v))).bare = _ from hr]
      exact (reading_eq after (rest.unread ++ v)).symm
    | done message rest =>
      rw [hs] at hr
      rw [show (step s (.ofBytes (u ++ v))).bare = _ from hr]
      rfl
    | fault cause rest =>
      rw [hs] at hr
      obtain ⟨left, hl⟩ := hr
      rw [hl]
      rfl

theorem reading_append_of_blocked {s after : Incoming} {u rest : Bytes} (v : Bytes)
    (h : reading s u = .blocked after rest) : reading s (u ++ v) = reading after (rest ++ v) := by
  have hr := resumes_reading s u v
  rwa [h] at hr

theorem reading_append_of_done {s : Incoming} {u rest : Bytes} {message : RawMessage} (v : Bytes)
    (h : reading s u = .done message rest) : reading s (u ++ v) = .done message (rest ++ v) := by
  have hr := resumes_reading s u v
  rwa [h] at hr

theorem reading_append_of_fault {s : Incoming} {u : Bytes} {cause : ReadFault} (v : Bytes)
    (h : reading s u = .fault cause) : reading s (u ++ v) = .fault cause := by
  have hr := resumes_reading s u v
  rwa [h] at hr

theorem reading_of_blocked {s after : Incoming} {u rest : Bytes}
    (h : reading s u = .blocked after rest) : reading after rest = .blocked after rest := by
  have hr := reading_append_of_blocked [] h
  rwa [List.append_nil, List.append_nil, h, eq_comm] at hr

end LocalHttp.Incoming
