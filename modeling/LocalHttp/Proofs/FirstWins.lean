import LocalHttp.Proofs.Decoration
import LocalHttp.Proofs.Reencoding

namespace LocalHttp

namespace Text

/-- Two characters that are equal but for the case of an ASCII letter. -/
def SameLetter (c d : Char) : Prop :=
  c = d ∨ (c.isUpper = true ∧ d.toNat = c.toNat + 32) ∨ (d.isUpper = true ∧ c.toNat = d.toNat + 32)

theorem isUpper_iff {c : Char} : c.isUpper = true ↔ 65 ≤ c.toNat ∧ c.toNat ≤ 90 := by
  change decide ('A'.val ≤ c.val ∧ c.val ≤ 'Z'.val) = true ↔ _
  rw [decide_eq_true_iff, UInt32.le_iff_toNat_le, UInt32.le_iff_toNat_le]
  rfl

theorem toNat_toLower (c : Char) :
    c.toLower.toNat = if 65 ≤ c.toNat ∧ c.toNat ≤ 90 then c.toNat + 32 else c.toNat := by
  rcases Nat.lt_or_ge c.val.toNat 128 with h | h
  · have hascii : ∀ n < 128, (Char.ofNat n).toLower.toNat =
        if 65 ≤ (Char.ofNat n).toNat ∧ (Char.ofNat n).toNat ≤ 90 then (Char.ofNat n).toNat + 32
        else (Char.ofNat n).toNat := by decide +kernel
    have hc := hascii c.toNat h
    rwa [Char.ofNat_toNat] at hc
  · have hn : 128 ≤ c.toNat := h
    rw [(case_of_le h).2, if_neg (by omega)]

theorem toLower_eq_toLower_iff {c d : Char} : c.toLower = d.toLower ↔ SameLetter c d := by
  rw [← Char.toNat_inj, toNat_toLower, toNat_toLower, SameLetter, ← Char.toNat_inj, isUpper_iff,
    isUpper_iff]
  split <;> split <;> omega

theorem sameWord_iff_letters {a b : String} :
    SameWord a b ↔ List.Forall₂ SameLetter a.toList b.toList := by
  have hletter : (fun c d ↦ Char.toLower c = Char.toLower d) = SameLetter :=
    funext₂ fun _ _ ↦ propext toLower_eq_toLower_iff
  rw [sameWord_iff, ← List.forall₂_eq_eq_eq, List.forall₂_map_left_iff,
    List.forall₂_map_right_iff, hletter]

end Text

/-- What is done to a table. -/
inductive Change
  | enter (field : Field)
  | set (name value : String)

namespace Change

def entered? : Change → Option Field
  | .enter f => some f
  | .set _ _ => none

def value? (key : String → String) (name : String) : Change → Option String
  | .enter _ => none
  | .set other value => if key other = key name then some value else none

end Change

def entered (changes : List Change) : List Field := changes.filterMap Change.entered?

/-- The value that was last set for a name. -/
def lastSet? (key : String → String) (name : String) (changes : List Change) : Option String :=
  (changes.filterMap (Change.value? key name)).getLast?

namespace FieldTable

variable {key : String → String}

def apply (t : FieldTable key) : Change → FieldTable key
  | .enter f => t.insert f
  | .set name value => t.set name value

def replay (changes : List Change) : FieldTable key := changes.foldl apply empty

section Look

variable {t : FieldTable key} {name : String} {f : Field}

theorem map_name_set (t : FieldTable key) (name value : String) :
    (t.set name value).fields.map (·.name) = t.fields.map (·.name) := by
  rw [set, List.map_map]
  refine List.map_congr_left fun f _ ↦ ?_
  dsimp only [Function.comp]
  split <;> rfl

theorem get?_set (t : FieldTable key) (name value other : String) :
    (t.set name value).get? other =
      (t.get? other).map fun f ↦
        if key f.name = key name then { f with value := value } else f := by
  rw [get?, set, List.find?_map]
  refine congrArg _ (congrArg₂ _ (funext fun f ↦ ?_) rfl)
  dsimp only [Function.comp]
  split <;> rfl

theorem key_eq_of_get? (h : t.get? name = some f) : key f.name = key name := by
  simpa using List.find?_some h

theorem get?_set_of_ne {value other : String} (h : key other ≠ key name) :
    (t.set name value).get? other = t.get? other := by
  rw [get?_set]
  cases hg : t.get? other with
  | none => rfl
  | some f =>
    rw [Option.map_some, if_neg]
    rw [key_eq_of_get? hg]
    exact h

theorem contains_eq (t : FieldTable key) (name : String) :
    t.contains name = (t.fields.map (·.name)).any fun other ↦ key other == key name := by
  rw [contains, get?, List.isSome_find?, List.any_map]
  rfl

theorem get?_foldl_apply_of_none {changes : List Change} (h : t.get? name = none)
    (hne : ∀ f ∈ entered changes, key f.name ≠ key name) :
    (changes.foldl apply t).get? name = none := by
  induction changes generalizing t with
  | nil => exact h
  | cons change changes ih =>
    cases change with
    | enter f =>
      have hall : ∀ g ∈ f :: entered changes, key g.name ≠ key name := hne
      rw [List.forall_mem_cons] at hall
      refine ih ?_ hall.2
      rw [apply, get?_insert, h, if_neg hall.1, Option.none_or]
    | set other value =>
      refine ih ?_ hne
      rw [apply, get?_set, h, Option.map_none]

/-- What is there for a name stays there, with the value that is last set. -/
theorem get?_foldl_apply_of_some {changes : List Change} (h : t.get? name = some f) :
    (changes.foldl apply t).get? name =
      some ⟨f.name, (lastSet? key name changes).getD f.value⟩ := by
  induction changes generalizing t f with
  | nil => exact h
  | cons change changes ih =>
    cases change with
    | enter g =>
      refine ih ?_
      rw [apply, get?_insert, h, Option.some_or]
    | set other value =>
      have hset : (t.set other value).get? name =
          some ⟨f.name, ((Change.set other value).value? key name).getD f.value⟩ := by
        rw [get?_set, h, Option.map_some, key_eq_of_get? h, Change.value?]
        by_cases hk : key name = key other
        · rw [if_pos hk, if_pos hk.symm]
          rfl
        · rw [if_neg hk, if_neg (Ne.symm hk)]
          rfl
      rw [List.foldl_cons, apply, ih hset, lastSet?, lastSet?, getD_getLast?_filterMap]

theorem map_name_foldl_apply {t u : FieldTable key} (changes : List Change)
    (h : t.fields.map (·.name) = u.fields.map (·.name)) :
    (changes.foldl apply t).fields.map (·.name) =
      ((entered changes).foldl insert u).fields.map (·.name) := by
  induction changes generalizing t u with
  | nil => exact h
  | cons change changes ih =>
    cases change with
    | set name value => exact ih ((map_name_set t name value).trans h)
    | enter f =>
      refine ih ?_
      rw [apply, fields_insert, fields_insert, contains_eq, contains_eq, h]
      split
      · exact h
      · rw [List.map_append, List.map_append, h]

theorem map_name_replay (changes : List Change) :
    (replay changes : FieldTable key).fields.map (·.name) =
      ((entered changes).eraseDupsBy (sameName key)).map (·.name) := by
  rw [replay, map_name_foldl_apply (u := empty) changes rfl, ← ofList, fields_ofList]

end Look

structure Answers (t : FieldTable key) (name : String) (f : Field) : Prop where
  get : t.get? name = some f
  value : t.value? name = some f.value
  contains : t.contains name = true

structure Lacks (t : FieldTable key) (name : String) : Prop where
  get : t.get? name = none
  value : t.value? name = none
  contains : t.contains name = false

theorem answers_of_get? {t : FieldTable key} {name : String} {f : Field}
    (h : t.get? name = some f) : t.Answers name f where
  get := h
  value := by rw [value?, h]; rfl
  contains := by rw [FieldTable.contains, h]; rfl

theorem lacks_of_get? {t : FieldTable key} {name : String} (h : t.get? name = none) :
    t.Lacks name where
  get := h
  value := by rw [value?, h]; rfl
  contains := by rw [FieldTable.contains, h]; rfl

/-- The first value that is entered for a name wins: one entry for all spellings of a name, in the
order and with the spelling in which they first came. -/
structure FirstWins (changes : List Change) (t : FieldTable key) : Prop where
  distinct : t.fields.Pairwise fun f g ↦ key f.name ≠ key g.name
  names : t.fields.map (·.name) = ((entered changes).eraseDupsBy (sameName key)).map (·.name)
  entry : ∀ before f after, changes = before ++ .enter f :: after →
    (∀ g ∈ entered before, key g.name ≠ key f.name) → ∀ name, key name = key f.name →
      t.Answers name ⟨f.name, (lastSet? key name after).getD f.value⟩
  absent : ∀ name, (∀ f ∈ entered changes, key f.name ≠ key name) → t.Lacks name
  /-- A field is added just if it is the first of its name. -/
  offer : ∀ name value, (t.offer name value).1 = true ↔
    ∀ f ∈ entered changes, key f.name ≠ key name
  added : ∀ name value, (t.offer name value).1 = true →
    (t.offer name value).2.fields = t.fields ++ [⟨name, value⟩]
  refused : ∀ name value, (t.offer name value).1 = false → (t.offer name value).2 = t
  setNames : ∀ name value, (t.set name value).fields.map (·.name) = t.fields.map (·.name)
  setOther : ∀ name value other, key other ≠ key name →
    (t.set name value).get? other = t.get? other

theorem contains_replay (changes : List Change) (name : String) :
    (replay changes : FieldTable key).contains name =
      (entered changes).any fun f ↦ key f.name == key name := by
  have hnames : (replay changes : FieldTable key).fields.map (·.name) =
      (ofList (entered changes) : FieldTable key).fields.map (·.name) :=
    map_name_foldl_apply changes rfl
  rw [contains_eq, hnames, ← contains_eq, contains, get?_ofList, List.isSome_find?]

theorem get?_replay_of_first {before after : List Change} {f : Field} {name : String}
    (hfirst : ∀ g ∈ entered before, key g.name ≠ key f.name) (hname : key name = key f.name) :
    (replay (before ++ .enter f :: after) : FieldTable key).get? name =
      some ⟨f.name, (lastSet? key name after).getD f.value⟩ := by
  have hbefore : (replay before : FieldTable key).get? name = none := by
    refine get?_foldl_apply_of_none rfl fun g hg ↦ ?_
    rw [hname]
    exact hfirst g hg
  have henter : ((replay before : FieldTable key).insert f).get? name = some f := by
    rw [get?_insert, hbefore, if_pos hname.symm, Option.none_or]
  rw [replay, List.foldl_append, List.foldl_cons]
  exact get?_foldl_apply_of_some henter

theorem firstWins_replay (changes : List Change) :
    FirstWins changes (replay changes : FieldTable key) where
  distinct := (replay changes).distinct
  names := map_name_replay changes
  entry before f after h hfirst name hname := by
    subst h
    exact answers_of_get? (get?_replay_of_first hfirst hname)
  absent name h := lacks_of_get? (get?_foldl_apply_of_none rfl h)
  offer name value := by
    rw [FieldTable.offer, contains_replay]
    simp
  added name value h := by
    have hc : ¬(replay changes : FieldTable key).contains name = true := by
      simpa [FieldTable.offer] using h
    rw [FieldTable.offer, add, fields_insert, if_neg hc]
  refused name value h := by
    have hc : (replay changes : FieldTable key).contains name = true := by
      simpa [FieldTable.offer] using h
    exact add_of_contains hc
  setNames name value := map_name_set _ name value
  setOther name value other h := get?_set_of_ne h

def typeFields (contentType : String) : List Field :=
  if contentType.isEmpty then [] else [⟨"Content-Type", contentType⟩]

/-- A table that has come about by these changes, in any of the ways in which tables do. -/
inductive Made : {key : String → String} → List Change → FieldTable key → Prop
  | empty {key : String → String} : Made [] (.empty : FieldTable key)
  | ofList {key : String → String} (fields : List Field) :
    Made (fields.map .enter) (.ofList fields : FieldTable key)
  | add {key : String → String} {changes : List Change} {t : FieldTable key}
    (name value : String) : Made changes t →
      Made (changes ++ [.enter ⟨name, value⟩]) (t.offer name value).2
  | set {key : String → String} {changes : List Change} {t : FieldTable key}
    (name value : String) : Made changes t →
      Made (changes ++ [.set name value]) (t.set name value)
  | merge {key : String → String} {changes others : List Change} {t u : FieldTable key} :
    Made changes t → Made others u → Made (changes ++ u.fields.map .enter) (t.merge u)
  | message {changes : List Change} {t : Headers} (body : Bytes) (contentType : String) :
    Made changes t → Made (changes ++ (typeFields contentType).map .enter)
      (Message.ofParts body contentType t).headers
  | length {changes : List Change} {m : Message} : Made changes m.headers →
      Made (changes ++ (lengthFields m.body).map .enter) m.withContentLength.headers

theorem foldl_apply_enter (t : FieldTable key) (fields : List Field) :
    (fields.map .enter).foldl apply t = fields.foldl insert t := List.foldl_map

theorem Made.eq_replay {changes : List Change} {t : FieldTable key} (h : Made changes t) :
    t = replay changes := by
  induction h with
  | empty => rfl
  | ofList fields => rw [replay, foldl_apply_enter, FieldTable.ofList]
  | add name value _ ih =>
    rw [replay, List.foldl_append, ← replay, ← ih]
    rfl
  | set name value _ ih =>
    rw [replay, List.foldl_append, ← replay, ← ih]
    rfl
  | merge _ _ ih _ =>
    rw [replay, List.foldl_append, ← replay, ← ih, foldl_apply_enter, FieldTable.merge]
  | message body contentType _ ih =>
    rw [replay, List.foldl_append, ← replay, ← ih, foldl_apply_enter]
    unfold Message.ofParts typeFields
    cases contentType.isEmpty <;> rfl
  | length _ ih =>
    rw [replay, List.foldl_append, ← replay, ← ih, foldl_apply_enter,
      Message.withContentLength_eq]

theorem Made.firstWins {changes : List Change} {t : FieldTable key} (h : Made changes t) :
    FirstWins changes t := by
  rw [h.eq_replay]
  exact firstWins_replay changes

end FieldTable

open FieldTable (FirstWins Made)
open Incoming (read reading readRequest readResponse)

/-- Headers that have been read from the front of `bytes`: those of the lines, one by one. -/
def ReadsLines (bytes : Bytes) (headers : Headers) : Prop :=
  ∃ (text : MessageText) (rest : Bytes), text.WellFormed ∧ bytes = text.bytes ++ rest ∧
    Made ((text.lines.map Field.stripped).map .enter) headers

def ReadsSegments (query : List Char) (args : Arguments) : Prop :=
  ∃ fields, List.Forall₂ Target.Argument (Target.segments query) fields ∧
    Made (fields.map .enter) args

section Reading

variable {α : Type} {ofRaw : RawMessage → Except ReadFault α} {u v kept : Bytes} {s : Incoming}
  {b : Buffer}

theorem exists_text_of_read {m : α} (hu : reading .fresh u = .blocked s kept)
    (hb : b.unread = kept ++ v) (hm : (read ofRaw s b).1 = .message m) :
    ∃ (text : MessageText) (rest : Bytes), text.WellFormed ∧ u ++ v = text.bytes ++ rest ∧
      ofRaw text.raw = .ok m := by
  obtain ⟨raw, rest, hread, hraw⟩ := Incoming.exists_reading_of_read hm
  rw [hb, ← Incoming.reading_append_of_blocked v hu] at hread
  obtain ⟨text, hbytes, hw, rfl⟩ := Incoming.reading_fresh_iff.1 hread
  exact ⟨text, rest, hw, hbytes, hraw⟩

theorem readsLines_request {r : Request} (hu : reading .fresh u = .blocked s kept)
    (hb : b.unread = kept ++ v) (hr : (readRequest s b).1 = .message r) :
    ReadsLines (u ++ v) r.headers := by
  obtain ⟨text, rest, hw, hbytes, hraw⟩ := exists_text_of_read hu hb hr
  have hm := (Request.ofRaw_eq_ok_iff.1 hraw).2.2
  refine ⟨text, rest, hw, hbytes, ?_⟩
  rw [hm]
  exact .ofList _

theorem readsLines_response {r : Response} (hu : reading .fresh u = .blocked s kept)
    (hb : b.unread = kept ++ v) (hr : (readResponse s b).1 = .message r) :
    ReadsLines (u ++ v) r.headers := by
  obtain ⟨text, rest, hw, hbytes, hraw⟩ := exists_text_of_read hu hb hr
  refine ⟨text, rest, hw, hbytes, ?_⟩
  rw [(Response.ofRaw_eq hw.body hraw).1]
  exact .ofList _

theorem readsSegments_argumentsOf {query : String} {args : Arguments}
    (h : Target.argumentsOf query = .ok args) : ReadsSegments query.toList args := by
  obtain ⟨fields, hf, rfl⟩ := Target.readQuery_eq_ok_iff.1 h
  exact ⟨fields, hf, .ofList fields⟩

theorem readsSegments_read {target resource : String} {args : Arguments}
    (h : Target.read target = .ok (resource, args)) :
    ReadsSegments (Target.behind '?' target.toList) args := by
  obtain ⟨-, fields, hf, rfl⟩ := Target.read_eq_ok_iff.1 h
  exact ⟨fields, hf, .ofList fields⟩

end Reading

/-- In every table that has come about in any of the ways in which tables do, the first value given
for a name wins; so it does in the tables that are read, which are made of what stands in the bytes
or in the query. Names of headers are equal up to the case of ASCII letters, names of arguments only
if they are the same. -/
theorem first_value_wins :
    (∀ (changes : List Change) (t : Headers), Made changes t → FirstWins changes t) ∧
    (∀ (changes : List Change) (t : Arguments), Made changes t → FirstWins changes t) ∧
    (∀ a b : String, a.toLower = b.toLower ↔ List.Forall₂ Text.SameLetter a.toList b.toList) ∧
    (∀ (u v kept : Bytes) (s : Incoming) (b : Buffer), reading .fresh u = .blocked s kept →
      b.unread = kept ++ v →
        (∀ r : Request, (readRequest s b).1 = .message r → ReadsLines (u ++ v) r.headers) ∧
        ∀ r : Response, (readResponse s b).1 = .message r → ReadsLines (u ++ v) r.headers) ∧
    (∀ (query : String) (args : Arguments), Target.argumentsOf query = .ok args →
      ReadsSegments query.toList args) ∧
    ∀ (target resource : String) (args : Arguments), Target.read target = .ok (resource, args) →
      ReadsSegments (Target.behind '?' target.toList) args :=
  ⟨fun _ _ h ↦ h.firstWins, fun _ _ h ↦ h.firstWins, fun _ _ ↦ Text.sameWord_iff_letters,
    fun _ _ _ _ _ hu hb ↦ ⟨fun _ ↦ readsLines_request hu hb, fun _ ↦ readsLines_response hu hb⟩,
    fun _ _ ↦ readsSegments_argumentsOf, fun _ _ _ ↦ readsSegments_read⟩

def mixedTable : Headers :=
  (Message.ofParts [] "text/plain"
    (((FieldTable.ofList [⟨"Host", "a"⟩, ⟨"HOST", "b"⟩, ⟨"Ä", "1"⟩]).set "hOsT" "c").offer
      "ä" "2").2).headers

def mixedChanges : List Change :=
  [.enter ⟨"Host", "a"⟩, .enter ⟨"HOST", "b"⟩, .enter ⟨"Ä", "1"⟩, .set "hOsT" "c",
    .enter ⟨"ä", "2"⟩, .enter ⟨"Content-Type", "text/plain"⟩]

theorem made_mixedTable : Made mixedChanges mixedTable := by
  have htype : FieldTable.typeFields "text/plain" = [⟨"Content-Type", "text/plain"⟩] := by
    decide +kernel
  have hmade : Made _ mixedTable :=
    .message [] "text/plain" (.add "ä" "2" (.set "hOsT" "c" (.ofList _)))
  rw [htype] at hmade
  exact hmade

theorem first_value_wins_mixed :
    FirstWins mixedChanges mixedTable ∧
      FirstWins [.enter ⟨"a", "1"⟩, .enter ⟨"A", "2"⟩]
        (.ofList [⟨"a", "1"⟩, ⟨"A", "2"⟩] : Arguments) ∧
      ReadsLines oddRequest odd.headers ∧ ReadsLines oddResponse oddAnswer.headers ∧
      ReadsSegments "%3f".toList odd.args ∧
      ReadsSegments (Target.behind '?' "/?%3f".toList) odd.args := by
  have hempty : reading .fresh [] = .blocked .fresh [] := by
    rw [Incoming.reading_eq]
    rfl
  have hrequest : (readRequest .fresh (.ofBytes oddRequest)).1 = .message odd := by
    decide +kernel
  have hresponse : (readResponse .fresh (.ofBytes oddResponse)).1 = .message oddAnswer := by
    decide +kernel
  have hv (v : Bytes) : (Buffer.ofBytes v).unread = [] ++ v := rfl
  obtain ⟨hheaders, hargs, -, hlines, hquery, htarget⟩ := first_value_wins
  have hrequests := (hlines [] oddRequest [] .fresh _ hempty (hv _)).1 odd hrequest
  have hresponses := (hlines [] oddResponse [] .fresh _ hempty (hv _)).2 oddAnswer hresponse
  rw [List.nil_append] at hrequests hresponses
  refine ⟨hheaders _ _ made_mixedTable, hargs _ _ (.ofList [⟨"a", "1"⟩, ⟨"A", "2"⟩]), hrequests,
    hresponses, ?_, ?_⟩
  · exact hquery "%3f" odd.args (by decide +kernel)
  · exact htarget "/?%3f" "/" odd.args (by decide +kernel)

end LocalHttp
