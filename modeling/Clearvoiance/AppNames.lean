import Clearvoiance.EventStore
import Clearvoiance.Sha256
import Clearvoiance.Utf16

/-! The application names that link a query to its replay and its event, `clv:<replayId?>:<eventId>`.
The SDK builds them for the database session and for the observations it emits itself; the observer, the
SDK and the engine's event store take them apart again.  The builders cut a name at 63 units, the length
of a name in the database, and the identifiers of both kinds together do not fit. -/
namespace Clearvoiance
namespace AppNames

open JsonStrings Hex

/-- Bytes from a random source, of a given number. -/
abbrev Buf (n : ℕ) := { bs : Bytes // bs.length = n }

def newReplayID (buf : Buf 16) : GoString := "rep_".toList ++ encodeToString buf.1

def newEventId (now : UInt64) (random : Buf 8) : GoString :=
  "ev_".toList ++ encodeToString (Sha256.bigEndian 8 now.toNat ++ random.1)

/-- The longest name that the database keeps. -/
def nameLimit : ℕ := 63

def defaultPrefix : GoString := "clv:".toList

def colon : UInt16 := unitOf ':'

/-- The name of an event without a replay, or within one; the empty string is no replay. -/
def joined (pre replayId eventId : JsString) : JsString :=
  if replayId = [] then pre ++ eventId else pre ++ replayId ++ colon :: eventId

/-- `raw.length > 63 ? raw.slice(0, 63) : raw` -/
def shortened (raw : JsString) : JsString := if nameLimit < raw.length then raw.take nameLimit else raw

structure BuilderOptions where
  appPrefix : Option JsString := none
  replayId : Option JsString := none

def makeAppNameBuilder (opts : BuilderOptions) (eventId : JsString) (contextReplayId : Option JsString) : JsString :=
  let pre := opts.appPrefix.getD (utf16 defaultPrefix)
  let fallback := opts.replayId.getD []
  let replayId := contextReplayId.getD fallback
  shortened (joined pre replayId eventId)

structure EmitConfig where
  replayId : Option JsString := none
  appPrefix : Option JsString := none

def buildAppName (cfg : EmitConfig) (eventId : JsString) (replayId : Option JsString) : JsString :=
  let pre := cfg.appPrefix.getD (utf16 defaultPrefix)
  let r := replayId.getD []
  shortened (joined pre r eventId)

/-- `replayIdSource() ?? cfg.replayId` -/
def effectiveReplayId (cfg : EmitConfig) (contextReplayId : Option JsString) : Option JsString :=
  contextReplayId.or cfg.replayId

/-- The name on an observation that is emitted in the scope of an event. -/
def observationName (cfg : EmitConfig) (eventId : JsString) (contextReplayId : Option JsString) : JsString :=
  buildAppName cfg eventId (effectiveReplayId cfg contextReplayId)

structure ParsedAppName where
  replayID : GoString
  eventID : GoString
  deriving DecidableEq

def parseAppName (appName pre : GoString) : Option ParsedAppName :=
  if pre.isPrefixOf appName then
    let tail := appName.drop pre.length
    if tail = [] then none
    else if ':' ∈ tail then some ⟨tail.take (tail.idxOf ':'),tail.drop (tail.idxOf ':'+1)⟩
    else some ⟨[],tail⟩
  else none

structure EventName where
  eventId : JsString
  replayId : Option JsString
  deriving DecidableEq

def parseClvAppName (appName pre : JsString) : Option EventName :=
  if pre.isPrefixOf appName then
    let tail := appName.drop pre.length
    if tail = [] then none
    else if colon ∈ tail then some ⟨tail.drop (tail.idxOf colon+1),some (tail.take (tail.idxOf colon))⟩
    else some ⟨tail,none⟩
  else none

theorem shortened_eq (raw : JsString) : shortened raw = raw.take nameLimit := by
  unfold shortened
  split_ifs with h
  · rfl
  · exact (List.take_of_length_le (by omega)).symm

/-- An identifier: plain characters without a colon. -/
structure Identifier (s : GoString) (n : ℕ) : Prop where
  length : s.length = n
  plain : ∀ c ∈ s, c.toNat < 0x80 ∧ c ≠ ':'

theorem identifier_of_hex (bs : Bytes) {tag : List Char} (htag : ∀ c ∈ tag, c.toNat < 0x80 ∧ c ≠ ':') :
    Identifier (tag ++ encodeToString bs) (tag.length+2*bs.length) := by
  refine ⟨by simp,fun c hc => ?_⟩
  rcases List.mem_append.mp hc with hc | hc
  · exact htag c hc
  · exact of_mem_encodeToString (P := fun c => c.toNat < 0x80 ∧ c ≠ ':') (by decide) hc

namespace Identifier

variable {s : GoString} {n : ℕ}

theorem ascii (h : Identifier s n) : Ascii s := fun c hc => (h.plain c hc).1

theorem no_colon (h : Identifier s n) : ':' ∉ s := fun hc => (h.plain _ hc).2 rfl

theorem ne_nil (h : Identifier s n) (hn : 0 < n) : s ≠ [] := by
  rintro rfl
  have := h.length
  simp at this
  omega

end Identifier

theorem newReplayID_identifier (buf : Buf 16) : Identifier (newReplayID buf) 36 := by
  have h := identifier_of_hex buf.1 (show ∀ c ∈ "rep_".toList, c.toNat < 0x80 ∧ c ≠ ':' by simp)
  rw [buf.2] at h
  exact h

theorem newEventId_identifier (now : UInt64) (random : Buf 8) : Identifier (newEventId now random) 35 := by
  have h := identifier_of_hex (Sha256.bigEndian 8 now.toNat ++ random.1)
    (show ∀ c ∈ "ev_".toList, c.toNat < 0x80 ∧ c ≠ ':' by simp)
  have hlen : (Sha256.bigEndian 8 now.toNat ++ random.1).length = 16 := by
    rw [List.length_append,random.2,Sha256.bigEndian,List.length_map,List.length_range]
  rw [hlen] at h
  exact h

def suffix (replayId eventId : GoString) : GoString :=
  if replayId = [] then eventId else replayId ++ ':' :: eventId

theorem joined_eq (pre : JsString) (r e : GoString) : joined pre (utf16 r) (utf16 e) = pre ++ utf16 (suffix r e) := by
  unfold joined suffix
  simp only [utf16_eq_nil]
  split_ifs
  · rfl
  · have hcolon : utf16 (':' :: e) = colon :: utf16 e := by
      rw [← List.singleton_append,utf16_append,utf16_singleton (by decide)]
      rfl
    rw [utf16_append,hcolon,List.append_assoc]

theorem ascii_suffix {r e : GoString} (hr : Ascii r) (he : Ascii e) : Ascii (suffix r e) := by
  unfold suffix
  split_ifs
  · exact he
  · intro c hc
    rcases List.mem_append.mp hc with hc | hc
    · exact hr c hc
    · rcases List.mem_cons.mp hc with rfl | hc
      · decide
      · exact he c hc

theorem read_shortened (pre : JsString) {r e : GoString} (hr : Ascii r) (he : Ascii e) (hpre : pre.length ≤ nameLimit) :
    ofUtf16 (shortened (joined pre (utf16 r) (utf16 e))) =
      ofUtf16 pre ++ (suffix r e).take (nameLimit-pre.length) := by
  rw [joined_eq,shortened_eq]
  exact ofUtf16_take_append (ascii_suffix hr he) hpre

/-- A tail without a colon is an event, one with a colon is cut at the first one. -/
def parsedTail (tail : GoString) : ParsedAppName :=
  if ':' ∈ tail then ⟨tail.take (tail.idxOf ':'),tail.drop (tail.idxOf ':'+1)⟩ else ⟨[],tail⟩

theorem parseAppName_append (pre : GoString) {tail : GoString} (htail : tail ≠ []) :
    parseAppName (pre ++ tail) pre = some (parsedTail tail) := by
  have hpre : pre.isPrefixOf (pre ++ tail) = true := by simp
  unfold parseAppName parsedTail
  simp only [hpre,if_true,List.drop_left,htail,if_false]
  split_ifs <;> rfl

theorem parsedTail_plain {tail : GoString} (h : ':' ∉ tail) : parsedTail tail = ⟨[],tail⟩ := if_neg h

theorem cut_at {α : Type*} [DecidableEq α] {d : α} {u : List α} (hu : d ∉ u) (v : List α) :
    (u ++ d :: v).take ((u ++ d :: v).idxOf d) = u ∧ (u ++ d :: v).drop ((u ++ d :: v).idxOf d+1) = v := by
  have hidx : (u ++ d :: v).idxOf d = u.length := by
    rw [List.idxOf_append_of_notMem hu,List.idxOf_cons_self,Nat.add_zero]
  rw [hidx,List.take_left,List.drop_append,List.drop_of_length_le (by omega)]
  simp

theorem parsedTail_colon {u : GoString} (hu : ':' ∉ u) (v : GoString) : parsedTail (u ++ ':' :: v) = ⟨u,v⟩ := by
  obtain ⟨htake,hdrop⟩ := cut_at hu v
  unfold parsedTail
  rw [if_pos (by simp),htake,hdrop]

theorem take_suffix {r e : GoString} {n k : ℕ} (hr : Identifier r n) (hn : 0 < n) (hk : n < k) :
    (suffix r e).take k = r ++ ':' :: e.take (k-n-1) := by
  obtain ⟨m,rfl⟩ : ∃ m, k = n+(m+1) := ⟨k-n-1,by omega⟩
  unfold suffix
  rw [if_neg (hr.ne_nil hn),List.take_append,hr.length,List.take_of_length_le (by rw [hr.length]; omega),
    Nat.add_sub_cancel_left,List.take_succ_cons,Nat.add_sub_cancel]

/-- A name within a replay gives the replay back, and as much of the event as the limit leaves. -/
theorem parse_take_suffix {r e : GoString} {n k : ℕ} (hr : Identifier r n) (hn : 0 < n) (hk : n < k) (pre : GoString) :
    parseAppName (pre ++ (suffix r e).take k) pre = some ⟨r,e.take (k-n-1)⟩ := by
  rw [take_suffix hr hn hk,parseAppName_append pre (by simp),parsedTail_colon hr.no_colon]

def replayText (replayId : Option (Buf 16)) : GoString := (replayId.map newReplayID).getD []

def asUnits (replayId : Option (Buf 16)) : Option JsString := replayId.map fun buf => utf16 (newReplayID buf)

theorem getD_asUnits (replayId : Option (Buf 16)) : (asUnits replayId).getD [] = utf16 (replayText replayId) := by
  cases replayId <;> rfl

theorem asUnits_or (a b : Option (Buf 16)) : (asUnits a).or (asUnits b) = asUnits (a.or b) := by
  exact Option.map_or.symm

theorem ascii_replayText (replayId : Option (Buf 16)) : Ascii (replayText replayId) := by
  cases replayId with
  | none => intro c hc; cases hc
  | some buf => exact (newReplayID_identifier buf).ascii

theorem builder_default (static contextReplayId : Option (Buf 16)) (eventId : JsString) :
    makeAppNameBuilder { replayId := asUnits static } eventId (asUnits contextReplayId) =
      shortened (joined (utf16 defaultPrefix) (utf16 (replayText (contextReplayId.or static))) eventId) := by
  unfold makeAppNameBuilder
  dsimp only
  rw [Option.getD_none,← Option.getD_or,asUnits_or,getD_asUnits]

/-- The observer gets the replay and the event of a name back exactly when no replay is in effect: with a
replay the name is too long and the end of the event is cut off. -/
theorem app_name_round_trip_iff (static contextReplayId : Option (Buf 16)) (now : UInt64) (random : Buf 8) :
    parseAppName (ofUtf16 (makeAppNameBuilder { replayId := asUnits static } (utf16 (newEventId now random))
        (asUnits contextReplayId))) defaultPrefix =
      some ⟨replayText (contextReplayId.or static),newEventId now random⟩ ↔
    contextReplayId = none ∧ static = none := by
  have he := newEventId_identifier now random
  have hlen : (utf16 defaultPrefix).length = 4 := by decide
  rw [builder_default,read_shortened _ (ascii_replayText _) he.ascii (by rw [hlen]; decide),ofUtf16_utf16,hlen]
  have hnone : contextReplayId.or static = none ↔ contextReplayId = none ∧ static = none := by
    cases contextReplayId <;> cases static <;> simp
  rw [← hnone]
  cases contextReplayId.or static with
  | none =>
    have htake : (suffix (replayText none) (newEventId now random)).take (nameLimit-4) = newEventId now random := by
      rw [show suffix (replayText none) (newEventId now random) = newEventId now random from rfl]
      exact List.take_of_length_le (by rw [he.length]; decide)
    rw [htake,parseAppName_append _ (he.ne_nil (by omega)),parsedTail_plain he.no_colon]
    simp [replayText]
  | some buf =>
    have hr : Identifier (replayText (some buf)) 36 := newReplayID_identifier buf
    rw [parse_take_suffix hr (by omega) (by decide)]
    simp only [Option.some.injEq,ParsedAppName.mk.injEq,true_and,reduceCtorEq,iff_false]
    intro heq
    have hcut := congrArg List.length heq
    rw [List.length_take,he.length] at hcut
    exact absurd hcut (by decide)

def sampleReplay : Buf 16 := ⟨[0x5f,0x3a,0x91,0x0c,0x77,0xe2,0x18,0x4d,0xb6,0x20,0xc9,0x5e,0x03,0xfa,0x6b,0x84],rfl⟩

def sampleRandom : Buf 8 := ⟨[0x1d,0xc4,0x08,0xbb,0x9e,0x52,0x70,0xaf],rfl⟩

def sampleNow : UInt64 := 1767225600000

/-- Thirteen of the 35 characters of the event are lost. -/
theorem app_name_cut_in_replay :
    parseAppName (ofUtf16 (makeAppNameBuilder {} (utf16 (newEventId sampleNow sampleRandom)) (asUnits (some sampleReplay))))
        defaultPrefix = some ⟨newReplayID sampleReplay,"ev_0000019b76daa8001dc".toList⟩ ∧
      newEventId sampleNow sampleRandom = "ev_0000019b76daa8001dc408bb9e5270af".toList := by
  decide +kernel

section Parsers

def ParsedAppName.ids (p : ParsedAppName) : GoString × GoString := (p.replayID,p.eventID)

def EventName.ids (p : EventName) : GoString × GoString := (ofUtf16 (p.replayId.getD []),ofUtf16 p.eventId)

/-- The three parsers read the same from a name under the default prefix, if no identifier and an empty
one are the same. -/
structure ParsersAgree (appName : GoString) : Prop where
  sdk : (parseClvAppName (utf16 appName) (utf16 defaultPrefix)).map EventName.ids =
    (parseAppName appName defaultPrefix).map ParsedAppName.ids
  engine : EventStore.parseClvAppName (String.ofList appName) =
    ((parseAppName appName defaultPrefix).map fun p => (String.ofList p.replayID,String.ofList p.eventID)).getD ("","")

theorem parseAppName_other {pre appName : GoString} (h : ¬ pre <+: appName) : parseAppName appName pre = none := by
  unfold parseAppName
  rw [if_neg (by rwa [List.isPrefixOf_iff_prefix])]

theorem cutColon_plain {s : GoString} (h : ':' ∉ s) : EventStore.cutColon s = none := by
  induction s with
  | nil => rfl
  | cons c s ih =>
    rw [List.mem_cons,not_or] at h
    rw [EventStore.cutColon,if_neg (Ne.symm h.1),ih h.2,Option.map_none]

theorem cutColon_append {u : GoString} (hu : ':' ∉ u) (v : GoString) :
    EventStore.cutColon (u ++ ':' :: v) = some (u,v) := by
  induction u with
  | nil => rfl
  | cons c u ih =>
    rw [List.mem_cons,not_or] at hu
    rw [List.cons_append,EventStore.cutColon,if_neg (Ne.symm hu.1),ih hu.2,Option.map_some]

/-- A text has no colon or can be cut at the first one. -/
theorem colon_cases (s : GoString) : ':' ∉ s ∨ ∃ u v, ':' ∉ u ∧ s = u ++ ':' :: v := by
  by_cases h : ':' ∈ s
  · obtain ⟨u,v,hs,hu⟩ := List.eq_append_cons_of_mem h
    exact .inr ⟨u,v,hu,hs⟩
  · exact .inl h

theorem engine_append (tail : GoString) :
    EventStore.parseClvAppName (String.ofList (defaultPrefix ++ tail)) =
      (String.ofList (parsedTail tail).replayID,String.ofList (parsedTail tail).eventID) := by
  have hlist : (String.ofList (defaultPrefix ++ tail)).toList = 'c' :: 'l' :: 'v' :: ':' :: tail := String.toList_ofList
  unfold EventStore.parseClvAppName
  simp only [hlist]
  rcases colon_cases tail with h | ⟨u,v,hu,rfl⟩
  · rw [cutColon_plain h,parsedTail_plain h]
  · rw [cutColon_append hu,parsedTail_colon hu]

theorem engine_other {appName : GoString} (h : ¬ defaultPrefix <+: appName) :
    EventStore.parseClvAppName (String.ofList appName) = ("","") := by
  unfold EventStore.parseClvAppName
  rw [String.toList_ofList]
  split
  · exact absurd ⟨_,rfl⟩ h
  · rfl

theorem sdk_append (pre : JsString) {tail : GoString} (htail : tail ≠ []) :
    (parseClvAppName (pre ++ utf16 tail) pre).map EventName.ids = some (parsedTail tail).ids := by
  have hpre : pre.isPrefixOf (pre ++ utf16 tail) = true := by simp
  have hne : utf16 tail ≠ [] := fun h => htail ((utf16_eq_nil tail).mp h)
  have hmem : ∀ s : GoString, colon ∈ utf16 s ↔ ':' ∈ s := mem_utf16_iff (by decide)
  unfold parseClvAppName
  simp only [hpre,if_true,List.drop_left,hne,if_false]
  rcases colon_cases tail with h | ⟨u,v,hu,rfl⟩
  · rw [if_neg (by rwa [hmem]),parsedTail_plain h]
    simp [EventName.ids,ParsedAppName.ids,ofUtf16]
  · have hunits : utf16 (u ++ ':' :: v) = utf16 u ++ colon :: utf16 v := by
      rw [utf16_append,← List.singleton_append,utf16_append,utf16_singleton (by decide)]
      rfl
    obtain ⟨htake,hdrop⟩ := cut_at (by rwa [hmem] : colon ∉ utf16 u) (utf16 v)
    rw [if_pos (by rw [hmem]; simp),hunits,htake,hdrop,parsedTail_colon hu]
    simp [EventName.ids,ParsedAppName.ids]

theorem parsers_agree (appName : GoString) : ParsersAgree appName := by
  by_cases hpre : defaultPrefix <+: appName
  · obtain ⟨tail,rfl⟩ := hpre
    by_cases htail : tail = []
    · subst htail
      rw [List.append_nil]
      exact ⟨by decide,by decide⟩
    · refine ⟨?_,?_⟩
      · rw [utf16_append,sdk_append _ htail,parseAppName_append _ htail,Option.map_some]
      · rw [engine_append,parseAppName_append _ htail,Option.map_some,Option.getD_some]
  · refine ⟨?_,?_⟩
    · have hunits : ¬ (utf16 defaultPrefix).isPrefixOf (utf16 appName) = true := by
        rwa [List.isPrefixOf_iff_prefix,utf16_prefix_iff]
      unfold parseClvAppName
      rw [if_neg hunits,parseAppName_other hpre]
      rfl
    · rw [engine_other hpre,parseAppName_other hpre]
      rfl

end Parsers

section Attribution

/-- The configured prefix itself puts text between the engine's prefix and a colon. -/
def ReadsReplay (pre : GoString) : Prop := ∃ u v, ':' ∉ u ∧ u ≠ [] ∧ pre = defaultPrefix ++ (u ++ ':' :: v)

/-- An observation with the name and the event that the SDK gives it. -/
def emitted (cfg : EmitConfig) (eventId : JsString) (contextReplayId : Option JsString)
    (d : CapturedEvents.DbObservationEvent) : CapturedEvents.DbObservationEvent :=
  { d with
    applicationName := String.ofList (ofUtf16 (observationName cfg eventId contextReplayId))
    causedByEventId := String.ofList (ofUtf16 eventId) }

/-- A prefix that the name has and its tail does not begin to spell is a prefix of the prefix. -/
theorem prefix_of_prefix_append {p q x : GoString} {c : Char} (hc : c ∉ p) (h : p <+: q ++ c :: x) : p <+: q := by
  rcases List.prefix_or_prefix_of_prefix h (List.prefix_append q (c :: x)) with h' | ⟨z,rfl⟩
  · exact h'
  · rw [List.prefix_append_right_inj] at h
    cases z with
    | nil => rw [List.append_nil]
    | cons d z =>
      obtain ⟨rfl,-⟩ := List.cons_prefix_cons.mp h
      exact absurd (by simp) hc

variable {replayId : Option (Buf 16)} {eventId : GoString}

theorem replayText_eq_nil : replayText replayId = [] ↔ replayId = none := by
  cases replayId with
  | none => exact iff_of_true rfl rfl
  | some buf => exact iff_of_false ((newReplayID_identifier buf).ne_nil (by omega)) (by simp)

/-- The tail of a name begins with a letter that the engine's prefix does not have. -/
theorem suffix_head {n : ℕ} (replayId : Option (Buf 16)) (now : UInt64) (random : Buf 8) (hn : 0 < n) :
    ∃ c s, (suffix (replayText replayId) (newEventId now random)).take n = c :: s ∧ c ∉ defaultPrefix := by
  obtain ⟨n,rfl⟩ : ∃ m, n = m+1 := ⟨n-1,by omega⟩
  cases replayId with
  | none => exact ⟨'e',_,rfl,by decide⟩
  | some buf => exact ⟨'r',_,rfl,by decide⟩

/-- A tail in front of which the prefix leaves text without a colon is read right exactly when no text is left
or there is no replay. -/
theorem replay_of_plain_tail (he : Identifier eventId 35) {t : GoString} (h : ':' ∉ t) (ht : t.length ≤ 16) {k : ℕ}
    (hk : 55 ≤ k+2*t.length) :
    (parsedTail (t ++ (suffix (replayText replayId) eventId).take k)).replayID = replayText replayId ↔
      t = [] ∨ replayId = none := by
  cases replayId with
  | none =>
    have htail : ':' ∉ t ++ (suffix (replayText none) eventId).take k := by
      rw [List.mem_append,not_or]
      exact ⟨h,fun hc => he.no_colon (List.mem_of_mem_take hc)⟩
    rw [parsedTail_plain htail]
    exact iff_of_true rfl (.inr rfl)
  | some buf =>
    have hr : Identifier (replayText (some buf)) 36 := newReplayID_identifier buf
    rw [or_iff_left (by simp)]
    by_cases hlong : 36 < k
    · have hcolon : ':' ∉ t ++ replayText (some buf) := by
        rw [List.mem_append,not_or]
        exact ⟨h,hr.no_colon⟩
      rw [take_suffix hr (by omega) hlong,← List.append_assoc,parsedTail_colon hcolon]
      exact List.append_left_eq_self
    · have htake : (suffix (replayText (some buf)) eventId).take k = (replayText (some buf)).take k := by
        unfold suffix
        rw [if_neg (hr.ne_nil (by omega)),List.take_append_of_le_length (by rw [hr.length]; omega)]
      have hcolon : ':' ∉ t ++ (replayText (some buf)).take k := by
        rw [List.mem_append,not_or]
        exact ⟨h,fun hc => hr.no_colon (List.mem_of_mem_take hc)⟩
      rw [htake,parsedTail_plain hcolon]
      refine iff_of_false (Ne.symm (hr.ne_nil (by omega))) ?_
      rintro rfl
      simp at hk
      omega

/-- If the text that is left has a colon, what stands before the colon is read as the replay. -/
theorem replay_of_colon_tail {u v xs : GoString} (hu : ':' ∉ u) (ht : (u ++ ':' :: v).length ≤ 16) :
    (parsedTail (u ++ ':' :: v ++ xs)).replayID = replayText replayId ↔ replayId = none ∧ u = [] := by
  rw [List.append_assoc,List.cons_append,parsedTail_colon hu]
  dsimp only
  cases replayId with
  | none => simp [replayText]
  | some buf =>
    have hr : Identifier (replayText (some buf)) 36 := newReplayID_identifier buf
    refine iff_of_false ?_ (by simp)
    rintro rfl
    rw [List.length_append,hr.length] at ht
    omega

/-- The replay that is read from a tail in front of which the prefix leaves `t`. -/
theorem replay_of_tail (he : Identifier eventId 35) {t : GoString} (ht : t.length ≤ 16) {k : ℕ} (hk : 55 ≤ k+2*t.length) :
    (parsedTail (t ++ (suffix (replayText replayId) eventId).take k)).replayID = replayText replayId ↔
      t = [] ∨ (replayId = none ∧ ¬ ∃ u v, ':' ∉ u ∧ u ≠ [] ∧ t = u ++ ':' :: v) := by
  rcases colon_cases t with h | ⟨u,v,hu,rfl⟩
  · have hplain : ¬ ∃ u v, ':' ∉ u ∧ u ≠ [] ∧ t = u ++ ':' :: v := by
      rintro ⟨u,v,-,-,rfl⟩
      exact h (by simp)
    rw [replay_of_plain_tail he h ht hk,and_iff_left hplain]
  · have hread : (∃ u' v', ':' ∉ u' ∧ u' ≠ [] ∧ u ++ ':' :: v = u' ++ ':' :: v') ↔ u ≠ [] := by
      constructor
      · rintro ⟨u',v',hu',hne,heq⟩
        rwa [(separator_append_inj hu hu' heq).1]
      · intro hne
        exact ⟨u,v,hu,hne,rfl⟩
    rw [replay_of_colon_tail hu ht,hread,not_not,or_iff_right (by simp)]

/-- The engine reads the replay in effect off an observation exactly when the configured prefix is its own, or
no replay is in effect and the prefix does not look like one; its parser agrees with the other two. -/
theorem observation_attributed_iff (appPrefix : Option JsString) (static contextReplayId : Option (Buf 16))
    (now : UInt64) (random : Buf 8) (ev : CapturedEvents.Event) (d : CapturedEvents.DbObservationEvent)
    (hshort : (ofUtf16 (appPrefix.getD (utf16 defaultPrefix))).length ≤ 20) :
    ((EventStore.dbRow ev (emitted ⟨asUnits static,appPrefix⟩ (utf16 (newEventId now random)) (asUnits contextReplayId) d)).replayID =
        String.ofList (ofUtf16 ((effectiveReplayId ⟨asUnits static,appPrefix⟩ (asUnits contextReplayId)).getD [])) ∧
      ∀ appName, ParsersAgree appName) ↔
    ofUtf16 (appPrefix.getD (utf16 defaultPrefix)) = defaultPrefix ∨
      (contextReplayId.or static = none ∧ ¬ ReadsReplay (ofUtf16 (appPrefix.getD (utf16 defaultPrefix)))) := by
  rw [and_iff_left parsers_agree]
  have he := newEventId_identifier now random
  have hunits := length_le_ofUtf16 (appPrefix.getD (utf16 defaultPrefix))
  simp only [EventStore.dbRow,emitted,observationName,effectiveReplayId,buildAppName,asUnits_or,getD_asUnits,ofUtf16_utf16]
  rw [read_shortened _ (ascii_replayText _) he.ascii (by unfold nameLimit; omega)]
  generalize hq : ofUtf16 (appPrefix.getD (utf16 defaultPrefix)) = q at *
  generalize appPrefix.getD (utf16 defaultPrefix) = pre at *
  generalize contextReplayId.or static = replayId
  have hroom : 0 < nameLimit-pre.length := by
    unfold nameLimit
    omega
  by_cases hpre : defaultPrefix <+: q
  · obtain ⟨t,rfl⟩ := hpre
    have hlen : (defaultPrefix ++ t).length = 4+t.length := by
      rw [List.length_append]
      rfl
    rw [hlen] at hshort hunits
    rw [List.append_assoc,engine_append,String.ofList_inj,
      replay_of_tail he (by omega) (by unfold nameLimit; omega)]
    simp only [ReadsReplay,List.append_cancel_left_eq,List.append_right_eq_self]
  · obtain ⟨c,s,hs,hc⟩ := suffix_head replayId now random hroom
    have hother : ¬ defaultPrefix <+: q ++ (suffix (replayText replayId) (newEventId now random)).take (nameLimit-pre.length) := by
      rw [hs]
      exact fun h => hpre (prefix_of_prefix_append hc h)
    have hread : ¬ ReadsReplay q := by
      rintro ⟨u,v,-,-,rfl⟩
      exact hpre (List.prefix_append _ _)
    have hne : q ≠ defaultPrefix := by
      rintro rfl
      exact hpre List.prefix_rfl
    rw [engine_other hother,or_iff_right hne,and_iff_left hread,← replayText_eq_nil]
    exact ⟨fun h => (String.ofList_inj.mp (h : String.ofList [] = _)).symm,fun h => by rw [h]⟩

def sampleObservation : CapturedEvents.DbObservationEvent := ⟨"fp","SELECT 1",120000000,"","",.slowQuery⟩

def sampleEvent : CapturedEvents.Event := ⟨"ev_1",0,0,"db.postgres","0.1.0",[],[],some (.db sampleObservation)⟩

theorem observation_attributed_default :
    (EventStore.dbRow sampleEvent (emitted ⟨none,none⟩ (utf16 (newEventId sampleNow sampleRandom))
      (asUnits (some sampleReplay)) sampleObservation)).replayID = "rep_5f3a910c77e2184db620c95e03fa6b84" :=
  (((observation_attributed_iff none none (some sampleReplay) sampleNow sampleRandom sampleEvent sampleObservation
    (by decide +kernel)).mpr (.inl (by decide +kernel))).1).trans (by decide +kernel)

/-- With a prefix of its own an application loses the replay of its observations. -/
theorem observation_unattributed_shop :
    (EventStore.dbRow sampleEvent (emitted ⟨none,some (utf16 "shop:".toList)⟩ (utf16 (newEventId sampleNow sampleRandom))
        (asUnits (some sampleReplay)) sampleObservation)).replayID = "" ∧
      String.ofList (ofUtf16 ((effectiveReplayId ⟨none,some (utf16 "shop:".toList)⟩ (asUnits (some sampleReplay))).getD [])) =
        "rep_5f3a910c77e2184db620c95e03fa6b84" := by
  decide +kernel

end Attribution

end AppNames
end Clearvoiance
