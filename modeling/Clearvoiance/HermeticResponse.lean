import Clearvoiance.MockPack

/-! What an application receives for a mocked call: a `Response` from the hermetic `fetch`, an
`IncomingMessage` from the `http.request` shim.  Both rebuild the recorded response from the entry of
the mock store; the first keeps one value for each header name and cannot build every status, the
second keeps one of the names that differ in case only, and neither sees a body that was offloaded. -/
namespace Clearvoiance
namespace HermeticResponse

open Signature UnicodeCase MockPack

/-- `name.toLowerCase()`. -/
def lowered (name : String) : String := String.ofList (toLowerCase name.toList)

inductive ResponseError
  | statusRange
  | invalidName (name : String)
  | invalidValue (name value : String)
  | nullBodyStatus
  deriving DecidableEq

structure Response where
  status : ℕ
  headers : List (String × String)
  body : Bytes
  deriving DecidableEq

def isTokenChar (c : Char) : Bool := c.isAlphanum || "!#$%&'*+-.^_`|~".toList.contains c

def isToken (name : String) : Bool := name ≠ "" && name.toList.all isTokenChar

def isHttpWhitespace (c : Char) : Bool := c = ' ' || c = '\t' || c = '\n' || c = '\r'

def normalizeValue (v : String) : String :=
  String.ofList (((v.toList.dropWhile isHttpWhitespace).reverse.dropWhile isHttpWhitespace).reverse)

/-- A byte string without the bytes that would end the field. -/
def isValidValue (v : String) : Bool :=
  (normalizeValue v).toList.all fun c => decide (c.toNat < 256) && c ≠ '\n' && c ≠ '\r' && c.toNat ≠ 0

/-- What is left of one field in a header list; `dropped` are the names that a platform refuses to keep
in a response. -/
def keptField (dropped : String → Bool) (f : String × String) : Option (String × String) :=
  if dropped (lowered f.1) then none else some (lowered f.1,normalizeValue f.2)

def fillHeaders (dropped : String → Bool) : List (String × String) → Except ResponseError (List (String × String))
  | [] => .ok []
  | f :: rest =>
    if isToken f.1 then
      if isValidValue f.2 then (fillHeaders dropped rest).map fun filled => (keptField dropped f).toList ++ filled
      else .error (.invalidValue f.1 f.2)
    else .error (.invalidName f.1)

def nullBodyStatuses : List ℕ := [101,103,204,205,304]

/-- `new Response(body, { status, headers })` with a body that is not `null`; the status is converted to
sixteen bits first. -/
def newResponse (dropped : String → Bool) (body : Bytes) (status : ℕ) (headers : List (String × String)) :
    Except ResponseError Response :=
  let status := status%65536
  if status < 200 ∨ 599 < status then .error .statusRange
  else do
    let filled ← fillHeaders dropped headers
    if status ∈ nullBodyStatuses then .error .nullBodyStatus else .ok ⟨status,filled,body⟩

/-- The first value of every name that has one. -/
def flatHeadersForResponse (h : List (String × List String)) : List (String × String) :=
  h.filterMap fun f => f.2.head?.map fun v => (f.1,v)

/-- The end of `hermeticFetch` for a call that found its mock. -/
def fetchResponse (dropped : String → Bool) (entry : MockStore.MockEntry) : Except ResponseError Response :=
  newResponse dropped entry.responseBody entry.status (flatHeadersForResponse entry.responseHeaders)

/-- `string | string[]`. -/
inductive HeaderValue
  | one (value : String)
  | many (values : List String)
  deriving DecidableEq

structure IncomingMessage where
  statusCode : ℕ
  statusMessage : String
  headers : AList fun _ : String => HeaderValue
  body : Bytes

def headerValue : List String → HeaderValue
  | [v] => .one v
  | vs => .many vs

def assignHeader (out : AList fun _ : String => HeaderValue) (f : String × List String) :
    AList fun _ : String => HeaderValue :=
  if f.2 = [] ∨ lowered f.1 = protoKey then out else out.insert (lowered f.1) (headerValue f.2)

def flattenHeadersForIncoming (h : List (String × List String)) : AList fun _ : String => HeaderValue :=
  h.foldl assignHeader ∅

def defaultStatusMessage (status : ℕ) : String :=
  (([(200,"OK"),(201,"Created"),(204,"No Content"),(301,"Moved Permanently"),(302,"Found"),(400,"Bad Request"),
    (401,"Unauthorized"),(403,"Forbidden"),(404,"Not Found"),(429,"Too Many Requests"),(500,"Internal Server Error"),
    (502,"Bad Gateway"),(503,"Service Unavailable")] : List (ℕ × String)).lookup status).getD ""

def emitResponse (entry : MockStore.MockEntry) : IncomingMessage :=
  ⟨entry.status,defaultStatusMessage entry.status,flattenHeadersForIncoming entry.responseHeaders,entry.responseBody⟩

/-- A mocked `fetch`; `none` when the store has no mock for the call. -/
def mockedFetch (dropped : String → Bool) (store : MockStore.Store) (causedBy : String) (sig : MockStore.Signature) :
    Option (Except ResponseError Response) :=
  (MockStore.take store causedBy sig).2.map (fetchResponse dropped)

def mockedRequest (store : MockStore.Store) (causedBy : String) (sig : MockStore.Signature) : Option IncomingMessage :=
  (MockStore.take store causedBy sig).2.map emitResponse

def Response.values (r : Response) (name : String) : List String :=
  (r.headers.filter fun f => f.1 = lowered name).map Prod.snd

def HeaderValue.toList : HeaderValue → List String
  | .one v => [v]
  | .many vs => vs

def IncomingMessage.values (m : IncomingMessage) (name : String) : List String :=
  ((m.headers.lookup (lowered name)).map HeaderValue.toList).getD []

/-- The recorded values under a name, whatever its case. -/
def recordedValues (h : HeaderMap) (name : String) : List String :=
  (h.fields.filter fun f => lowered f.1 = lowered name).flatMap Prod.snd

/-- The bytes of a captured body, given what the blob store holds. -/
def bodyBytes (blobs : BlobRef → Bytes) (b : Option Body) : Bytes :=
  match b.bind (·.data) with
  | none => []
  | some (.inline bytes) => bytes
  | some (.blob ref) => blobs ref

/-- The response of a call is the recorded one. -/
def FetchFaithful (blobs : BlobRef → Bytes) (http : HttpExchange) (r : Except ResponseError Response) : Prop :=
  ∃ res, r = .ok res ∧ res.status = http.status ∧ (∀ name, res.values name = recordedValues http.responseHeaders name) ∧
    res.body = bodyBytes blobs http.responseBody

def RequestFaithful (blobs : BlobRef → Bytes) (http : HttpExchange) (m : IncomingMessage) : Prop :=
  m.statusCode = http.status ∧ (∀ name, m.values name = recordedValues http.responseHeaders name) ∧
    m.body = bodyBytes blobs http.responseBody

section Lists

variable {α β : Type*}

/-- Where no part gets longer, the whole stays the same only if every part does. -/
theorem flatMap_eq_iff (l : List α) (g e : α → List β) (hle : ∀ a ∈ l, (g a).length ≤ (e a).length) :
    l.flatMap g = l.flatMap e ↔ ∀ a ∈ l, g a = e a := by
  induction l with
  | nil => simp
  | cons a l ih =>
    simp only [List.mem_cons,forall_eq_or_imp] at hle
    have ih' := ih hle.2
    have hrest : (l.flatMap g).length ≤ (l.flatMap e).length := by
      simp only [List.length_flatMap]
      exact List.sum_le_sum hle.2
    simp only [List.flatMap_cons,List.mem_cons,forall_eq_or_imp]
    constructor
    · intro h
      have hlen := congrArg List.length h
      simp only [List.length_append] at hlen
      have ha := hle.1
      obtain ⟨hhead,htail⟩ := List.append_inj h (by omega)
      exact ⟨hhead,ih'.mp htail⟩
    · rintro ⟨hhead,htail⟩
      rw [hhead,ih'.mpr htail]

/-- The last of several non-empty parts is the whole only if it is the only one. -/
theorem getLast_eq_flatMap_iff (l : List α) (e : α → List β) (hne : ∀ a ∈ l, e a ≠ []) :
    (l.getLast?.map e).getD [] = l.flatMap e ↔ l.length ≤ 1 := by
  induction l using List.reverseRecOn with
  | nil => simp
  | append_singleton l a _ =>
    have hlast : ((l ++ [a]).getLast?.map e).getD [] = e a := by simp
    rw [hlast]
    simp only [List.flatMap_append,List.flatMap_cons,List.flatMap_nil,List.append_nil,List.length_append,
      List.length_cons,List.length_nil]
    constructor
    · intro h
      have hnil : l.flatMap e = [] := by
        have hlen := congrArg List.length h
        simp only [List.length_append] at hlen
        exact List.length_eq_zero_iff.mp (by omega)
      have hl : l = [] := by
        cases l with
        | nil => rfl
        | cons b l =>
          have hb := hne b (by simp)
          simp [hb] at hnil
      simp [hl]
    · intro h
      have hl : l = [] := List.length_eq_zero_iff.mp (by omega)
      simp [hl]

end Lists

/-- The body did not leave the event, or there is nothing in the blob store. -/
def BodyKept (blobs : BlobRef → Bytes) (b : Option Body) : Prop :=
  match b.bind (·.data) with
  | some (.blob ref) => blobs ref = []
  | _ => True

theorem inlineBytes_eq_iff (blobs : BlobRef → Bytes) (b : Option Body) :
    inlineBytes b = bodyBytes blobs b ↔ BodyKept blobs b := by
  unfold inlineBytes bodyBytes BodyKept
  rcases b.bind (·.data) with _ | ⟨bytes | ref⟩
  · simp
  · simp
  · simp [eq_comm]

/-- What is left of one recorded header in a `Response`. -/
def fetchedValues (dropped : String → Bool) (f : String × List String) : List String :=
  if f.1 = protoKey ∨ dropped (lowered f.1) then [] else (f.2.head?.map normalizeValue).toList

theorem filterMap_cons_toList {α β : Type*} (g : α → Option β) (a : α) (l : List α) :
    (a :: l).filterMap g = (g a).toList ++ l.filterMap g := by
  cases h : g a <;> simp [h]

theorem fillHeaders_eq_ok_iff (dropped : String → Bool) (hs out : List (String × String)) :
    fillHeaders dropped hs = .ok out ↔
      (∀ f ∈ hs, isToken f.1 = true ∧ isValidValue f.2 = true) ∧ hs.filterMap (keptField dropped) = out := by
  induction hs generalizing out with
  | nil => simp [fillHeaders]
  | cons f hs ih =>
    rw [fillHeaders,filterMap_cons_toList,List.forall_mem_cons]
    cases hn : isToken f.1 with
    | false => simp
    | true =>
      cases hv : isValidValue f.2 with
      | false => simp
      | true =>
        simp only [if_true,and_self,true_and]
        cases hrest : fillHeaders dropped hs with
        | error e =>
          have hno : ¬ ∀ f ∈ hs, isToken f.1 = true ∧ isValidValue f.2 = true := by
            intro hall
            have hok := (ih (hs.filterMap (keptField dropped))).mpr ⟨hall,rfl⟩
            simp [hrest] at hok
          constructor
          · intro h
            cases h
          · intro h
            exact absurd h.1 hno
        | ok filled =>
          obtain ⟨hall,hfilled⟩ := (ih filled).mp hrest
          rw [hfilled]
          simp only [Except.map,Except.ok.injEq]
          exact ⟨fun h => ⟨hall,h⟩,fun h => h.2⟩

theorem flatMap_filter {α β : Type*} (q : α → Bool) (g : α → List β) (l : List α) :
    (l.filter q).flatMap g = l.flatMap fun a => if q a then g a else [] := by
  induction l with
  | nil => rfl
  | cons a l ih => cases h : q a <;> simp [h,ih]

/-- The values that a response has under a name, field by field of the recording. -/
theorem values_of_filled (dropped : String → Bool) (h : HeaderMap) (status : ℕ) (body : Bytes) (name : String) :
    (Response.mk status ((flatHeadersForResponse (mapHeaderValues h)).filterMap (keptField dropped)) body).values name =
      (h.fields.filter fun f => lowered f.1 = lowered name).flatMap (fetchedValues dropped) := by
  unfold Response.values flatHeadersForResponse mapHeaderValues
  rw [flatMap_filter]
  induction h.fields with
  | nil => rfl
  | cons f fields ih =>
    rw [List.flatMap_cons,← ih]
    by_cases hk : f.1 = protoKey
    · rw [List.filter_cons_of_neg (by simpa using hk)]
      simp [fetchedValues,hk]
    · rw [List.filter_cons_of_pos (by simpa using hk),filterMap_cons_toList]
      cases hv : f.2.head? with
      | none => simp [fetchedValues,hk,hv]
      | some v =>
        simp only [Option.map_some,Option.toList_some,List.cons_append,List.nil_append]
        rw [filterMap_cons_toList]
        cases hd : dropped (lowered f.1) with
        | true => simp [keptField,fetchedValues,hk,hd]
        | false =>
          by_cases hname : lowered f.1 = lowered name
          · have hd' : dropped (lowered name) = false := hname ▸ hd
            simp [keptField,fetchedValues,hk,hv,hd',hname]
          · simp [keptField,hd,hname]

/-- A recorded header that a `Response` can carry. -/
def Carried (dropped : String → Bool) (f : String × List String) : Prop :=
  f.2 = [] ∨ ∃ v, f.2 = [v] ∧ f.1 ≠ protoKey ∧ dropped (lowered f.1) = false ∧ isToken f.1 = true ∧
    isValidValue v = true ∧ normalizeValue v = v

/-- A status with a body that `new Response` accepts. -/
def StatusCarried (status : ℕ) : Prop := 200 ≤ status ∧ status ≤ 599 ∧ status ∉ nullBodyStatuses

/-- The recorded response can be rebuilt as a `Response`. -/
def FetchKeeps (dropped : String → Bool) (blobs : BlobRef → Bytes) (http : HttpExchange) : Prop :=
  StatusCarried http.status ∧ BodyKept blobs http.responseBody ∧ ∀ f ∈ http.responseHeaders.fields, Carried dropped f

theorem fetchedValues_length (dropped : String → Bool) (f : String × List String) :
    (fetchedValues dropped f).length ≤ f.2.length := by
  unfold fetchedValues
  split_ifs
  · simp
  · cases f.2 <;> simp

theorem fetchedValues_eq_iff (dropped : String → Bool) (f : String × List String) :
    fetchedValues dropped f = f.2 ↔
      f.2 = [] ∨ ∃ v, f.2 = [v] ∧ f.1 ≠ protoKey ∧ dropped (lowered f.1) = false ∧ normalizeValue v = v := by
  unfold fetchedValues
  cases f.2 with
  | nil => split_ifs <;> simp
  | cons v vs =>
    by_cases hk : f.1 = protoKey
    · simp [hk]
    · cases hd : dropped (lowered f.1) with
      | true => simp
      | false => simp [hk,eq_comm,and_comm]

theorem mem_flatHeaders (h : HeaderMap) (k v : String) :
    (k,v) ∈ flatHeadersForResponse (mapHeaderValues h) ↔ ∃ vs, (k,v :: vs) ∈ h.fields ∧ k ≠ protoKey := by
  simp only [flatHeadersForResponse,mapHeaderValues,List.mem_filterMap,List.mem_filter,Option.map_eq_some_iff]
  constructor
  · rintro ⟨⟨k',vs⟩,⟨hmem,hk⟩,w,hw,heq⟩
    cases heq
    cases vs with
    | nil => cases hw
    | cons w' vs =>
      cases hw
      exact ⟨vs,hmem,by simpa using hk⟩
  · rintro ⟨vs,hmem,hk⟩
    exact ⟨(k,v :: vs),⟨hmem,by simpa using hk⟩,v,rfl,rfl⟩

theorem newResponse_eq_ok_iff (dropped : String → Bool) (body : Bytes) (status : ℕ) (hs : List (String × String))
    (res : Response) : newResponse dropped body status hs = .ok res ↔
      StatusCarried (status%65536) ∧ (∀ f ∈ hs, isToken f.1 = true ∧ isValidValue f.2 = true) ∧
        res = ⟨status%65536,hs.filterMap (keptField dropped),body⟩ := by
  unfold newResponse StatusCarried
  simp only
  by_cases hrange : status%65536 < 200 ∨ 599 < status%65536
  · rw [if_pos hrange]
    constructor
    · intro h
      cases h
    · rintro ⟨⟨h₁,h₂,-⟩,-⟩
      omega
  · rw [if_neg hrange]
    cases hfill : fillHeaders dropped hs with
    | error e =>
      constructor
      · intro h
        cases h
      · rintro ⟨-,hall,-⟩
        have hok := (fillHeaders_eq_ok_iff dropped hs _).mpr ⟨hall,rfl⟩
        simp [hfill] at hok
    | ok filled =>
      obtain ⟨hall,hfilled⟩ := (fillHeaders_eq_ok_iff dropped hs filled).mp hfill
      show (if status%65536 ∈ nullBodyStatuses then Except.error ResponseError.nullBodyStatus
        else .ok ⟨status%65536,filled,body⟩) = .ok res ↔ _
      by_cases hnull : status%65536 ∈ nullBodyStatuses
      · simp [hnull]
      · rw [if_neg hnull]
        constructor
        · intro h
          cases h
          exact ⟨⟨by omega,by omega,hnull⟩,hall,by rw [hfilled]⟩
        · rintro ⟨-,-,rfl⟩
          rw [hfilled]

theorem fetch_faithful_iff (dropped : String → Bool) (blobs : BlobRef → Bytes) (http : HttpExchange) (id : String)
    (g : MockStore.Signature) (contentType : String) :
    FetchFaithful blobs http (fetchResponse dropped
      ⟨id,g,http.status,mapHeaderValues http.responseHeaders,inlineBytes http.responseBody,contentType⟩) ↔
    FetchKeeps dropped blobs http := by
  have hvalues := values_of_filled dropped http.responseHeaders (http.status%65536) (inlineBytes http.responseBody)
  have hparts : ∀ name, ((http.responseHeaders.fields.filter fun f => lowered f.1 = lowered name).flatMap
      (fetchedValues dropped) = recordedValues http.responseHeaders name ↔
      ∀ f ∈ http.responseHeaders.fields, lowered f.1 = lowered name → fetchedValues dropped f = f.2) := by
    intro name
    unfold recordedValues
    rw [flatMap_eq_iff _ _ _ fun f _ => fetchedValues_length dropped f]
    simp only [List.mem_filter,decide_eq_true_eq,and_imp]
  unfold FetchFaithful fetchResponse
  simp only [newResponse_eq_ok_iff]
  constructor
  · rintro ⟨res,⟨hstatus,hvalid,rfl⟩,hs,hh,hb⟩
    refine ⟨?_,(inlineBytes_eq_iff _ _).mp hb,fun f hf => ?_⟩
    · rw [← hs]
      exact hstatus
    · have hname := (hparts f.1).mp ((hvalues f.1).symm.trans (hh f.1)) f hf rfl
      rcases (fetchedValues_eq_iff dropped f).mp hname with hnil | ⟨v,hv,hk,hd,hn⟩
      · exact .inl hnil
      · have hmem : (f.1,v) ∈ flatHeadersForResponse (mapHeaderValues http.responseHeaders) := by
          refine (mem_flatHeaders _ _ _).mpr ⟨[],?_,hk⟩
          rw [← hv]
          exact hf
        obtain ⟨htoken,hval⟩ := hvalid _ hmem
        exact .inr ⟨v,hv,hk,hd,htoken,hval,hn⟩
  · rintro ⟨hstatus,hbody,hfields⟩
    have hmod : http.status%65536 = http.status := by
      have hle := hstatus.2.1
      omega
    refine ⟨_,⟨by rwa [hmod],?_,rfl⟩,hmod,fun name => ?_,(inlineBytes_eq_iff _ _).mpr hbody⟩
    · rintro ⟨k,v⟩ hmem
      obtain ⟨vs,hf,hk⟩ := (mem_flatHeaders _ _ _).mp hmem
      rcases hfields _ hf with hnil | ⟨w,hw,-,-,htoken,hval,-⟩
      · simp at hnil
      · cases hw
        exact ⟨htoken,hval⟩
    · rw [hvalues,hparts]
      intro f hf _
      refine (fetchedValues_eq_iff dropped f).mpr ?_
      rcases hfields f hf with hnil | ⟨v,hv,hk,hd,-,-,hn⟩
      · exact .inl hnil
      · exact .inr ⟨v,hv,hk,hd,hn⟩

theorem lowered_protoKey : lowered protoKey = protoKey := by decide +kernel

/-- The recorded headers that arrive under a lower-case name. -/
def arriving (fields : List (String × List String)) (n : String) : List (String × List String) :=
  fields.filter fun f => decide (lowered f.1 = n) && decide (f.2 ≠ [])

theorem headerValue_toList (vs : List String) : (headerValue vs).toList = vs := by
  unfold headerValue
  split <;> rfl

/-- Under each name the last of the headers that arrive there is left. -/
theorem lookup_flatten (fields : List (String × List String)) {n : String} (hn : n ≠ protoKey) :
    ((flattenHeadersForIncoming fields).lookup n).map HeaderValue.toList =
      (arriving fields n).getLast?.map Prod.snd := by
  induction fields using List.reverseRecOn with
  | nil => rfl
  | append_singleton fields f ih =>
    have hstep : flattenHeadersForIncoming (fields ++ [f]) = assignHeader (flattenHeadersForIncoming fields) f := by
      simp [flattenHeadersForIncoming]
    rw [hstep]
    unfold assignHeader
    have harr : arriving (fields ++ [f]) n = arriving fields n ++ arriving [f] n := by simp [arriving]
    rw [harr]
    by_cases hnil : f.2 = []
    · simpa [hnil,arriving] using ih
    · by_cases hname : lowered f.1 = n
      · subst hname
        simp [hnil,hn,arriving,headerValue_toList]
      · have hother : arriving [f] n = [] := by simp [arriving,hname]
        rw [hother,List.append_nil,← ih]
        split_ifs
        · rfl
        · rw [AList.lookup_insert_ne (Ne.symm hname)]

theorem lookup_flatten_proto (fields : List (String × List String)) :
    (flattenHeadersForIncoming fields).lookup protoKey = none := by
  induction fields using List.reverseRecOn with
  | nil => rfl
  | append_singleton fields f ih =>
    have hstep : flattenHeadersForIncoming (fields ++ [f]) = assignHeader (flattenHeadersForIncoming fields) f := by
      simp [flattenHeadersForIncoming]
    rw [hstep]
    unfold assignHeader
    split_ifs with hskip
    · exact ih
    · have hne : protoKey ≠ lowered f.1 := fun h => hskip (.inr h.symm)
      rw [AList.lookup_insert_ne hne]
      exact ih

/-- The recorded response can be rebuilt as an `IncomingMessage`. -/
def RequestKeeps (blobs : BlobRef → Bytes) (http : HttpExchange) : Prop :=
  BodyKept blobs http.responseBody ∧
    (∀ f ∈ http.responseHeaders.fields, f.2 ≠ [] → lowered f.1 ≠ protoKey) ∧
    ∀ f ∈ http.responseHeaders.fields, ∀ g ∈ http.responseHeaders.fields, f.2 ≠ [] → g.2 ≠ [] →
      lowered f.1 = lowered g.1 → f = g

theorem recordedValues_eq (h : HeaderMap) (name : String) :
    recordedValues h name = (arriving h.fields (lowered name)).flatMap Prod.snd := by
  unfold recordedValues arriving
  induction h.fields with
  | nil => rfl
  | cons f fields ih =>
    by_cases hname : lowered f.1 = lowered name
    · by_cases hnil : f.2 = [] <;> simp [hname,hnil,ih]
    · simp [hname,ih]

/-- Away from `__proto__`, the names that `mapHeaderValues` leaves out do not arrive. -/
theorem arriving_mapHeaderValues (h : HeaderMap) {n : String} (hn : n ≠ protoKey) :
    arriving (mapHeaderValues h) n = arriving h.fields n := by
  unfold arriving mapHeaderValues
  rw [List.filter_filter]
  refine List.filter_congr fun f _ => ?_
  by_cases hk : f.1 = protoKey
  · have hne : lowered f.1 ≠ n := by
      rw [hk,lowered_protoKey]
      exact fun h => hn h.symm
    simp [hne]
  · simp [hk]

theorem mem_arriving {fields : List (String × List String)} {n : String} {f : String × List String} :
    f ∈ arriving fields n ↔ f ∈ fields ∧ lowered f.1 = n ∧ f.2 ≠ [] := by
  simp [arriving]

theorem arriving_length_iff (h : HeaderMap) (n : String) :
    (arriving h.fields n).length ≤ 1 ↔ ∀ f ∈ arriving h.fields n, ∀ g ∈ arriving h.fields n, f = g := by
  have hnodup : (arriving h.fields n).Nodup := (List.Nodup.of_map _ h.keyed).filter _
  constructor
  · intro hlen f hf g hg
    match harr : arriving h.fields n,hlen with
    | [],_ => simp [harr] at hf
    | [a],_ =>
      simp only [harr,List.mem_singleton] at hf hg
      rw [hf,hg]
  · intro hall
    match harr : arriving h.fields n with
    | [] => simp
    | [a] => simp
    | a :: b :: rest =>
      have hab : a = b := hall a (by simp [harr]) b (by simp [harr])
      rw [harr] at hnodup
      simp [hab] at hnodup

theorem values_faithful_iff (h : HeaderMap) (name : String) :
    (((flattenHeadersForIncoming (mapHeaderValues h)).lookup (lowered name)).map HeaderValue.toList).getD [] =
      recordedValues h name ↔
    if lowered name = protoKey then arriving h.fields protoKey = []
    else (arriving h.fields (lowered name)).length ≤ 1 := by
  rw [recordedValues_eq]
  have hne : ∀ n, ∀ f ∈ arriving h.fields n, f.2 ≠ [] := fun n f hf => (mem_arriving.mp hf).2.2
  split_ifs with hproto
  · rw [hproto,lookup_flatten_proto]
    constructor
    · intro hval
      by_contra harr
      obtain ⟨f,hf⟩ := List.exists_mem_of_ne_nil _ harr
      have hnil : (arriving h.fields protoKey).flatMap Prod.snd = [] := hval.symm
      exact hne _ f hf (List.flatMap_eq_nil_iff.mp hnil f hf)
    · intro harr
      rw [harr]
      rfl
  · rw [lookup_flatten _ hproto,arriving_mapHeaderValues h hproto]
    exact getLast_eq_flatMap_iff _ _ (hne _)

theorem request_faithful_iff (blobs : BlobRef → Bytes) (http : HttpExchange) (id : String) (g : MockStore.Signature)
    (contentType : String) : RequestFaithful blobs http (emitResponse
      ⟨id,g,http.status,mapHeaderValues http.responseHeaders,inlineBytes http.responseBody,contentType⟩) ↔
    RequestKeeps blobs http := by
  unfold RequestFaithful RequestKeeps
  have hvalues : ∀ name, (emitResponse ⟨id,g,http.status,mapHeaderValues http.responseHeaders,
      inlineBytes http.responseBody,contentType⟩).values name = recordedValues http.responseHeaders name ↔
      if lowered name = protoKey then arriving http.responseHeaders.fields protoKey = []
      else (arriving http.responseHeaders.fields (lowered name)).length ≤ 1 := values_faithful_iff _
  have hbody := inlineBytes_eq_iff blobs http.responseBody
  constructor
  · rintro ⟨-,hall,hb⟩
    refine ⟨hbody.mp hb,fun f hf hne hproto => ?_,fun f hf g hg hfne hgne heq => ?_⟩
    · have hf' := (hvalues f.1).mp (hall f.1)
      rw [if_pos hproto] at hf'
      have hmem : f ∈ arriving http.responseHeaders.fields protoKey := mem_arriving.mpr ⟨hf,hproto,hne⟩
      simp [hf'] at hmem
    · have hmem : f ∈ arriving http.responseHeaders.fields (lowered f.1) := mem_arriving.mpr ⟨hf,rfl,hfne⟩
      have hmem' : g ∈ arriving http.responseHeaders.fields (lowered f.1) := mem_arriving.mpr ⟨hg,heq.symm,hgne⟩
      have hf' := (hvalues f.1).mp (hall f.1)
      split_ifs at hf' with hproto
      · rw [hproto,hf'] at hmem
        simp at hmem
      · exact (arriving_length_iff _ _).mp hf' f hmem g hmem'
  · rintro ⟨hb,hproto,hcase⟩
    refine ⟨rfl,fun name => (hvalues name).mpr ?_,hbody.mpr hb⟩
    split_ifs with hname
    · by_contra harr
      obtain ⟨f,hf⟩ := List.exists_mem_of_ne_nil _ harr
      obtain ⟨hf,hlow,hne⟩ := mem_arriving.mp hf
      exact hproto f hf hne hlow
    · rw [arriving_length_iff]
      intro f hf g hg
      obtain ⟨hf,hlow,hne⟩ := mem_arriving.mp hf
      obtain ⟨hg,hlow',hne'⟩ := mem_arriving.mp hg
      exact hcase f hf g hg hne hne' (hlow.trans hlow'.symm)

/-- A mocked call that finds the entry of a captured one gets its response exactly when that response
can be rebuilt: by `fetch` if its status goes with a body, every name has at most one value and the
body is in the event, by `http.request` if no two names differ in case only and the body is in the
event. -/
theorem mocked_response_faithful_iff (dropped : String → Bool) (blobs : BlobRef → Bytes) {ev : CapturedEvent}
    {outbound : Outbound} {http : HttpExchange} {entry : PackEntry} (hout : ev.outbound = some outbound)
    (hhttp : outbound.http = some http) (hentry : entryFromEvent ev = some entry) {store : MockStore.Store}
    {causedBy : String} {sig : MockStore.Signature}
    (htake : (MockStore.take store causedBy sig).2 = some (storeEntry entry)) :
    ((∃ r, mockedFetch dropped store causedBy sig = some r ∧ FetchFaithful blobs http r) ↔
      FetchKeeps dropped blobs http) ∧
    ((∃ m, mockedRequest store causedBy sig = some m ∧ RequestFaithful blobs http m) ↔ RequestKeeps blobs http) := by
  obtain rfl : entry = ⟨outbound.causedByEventId,engineSignature (signatureInput ev outbound http),http.status,
      http.responseHeaders,inlineBytes http.responseBody,contentTypeOf http.responseBody⟩ := by
    simpa [entryFromEvent,hout,hhttp] using hentry.symm
  unfold mockedFetch mockedRequest
  rw [htake]
  simp only [Option.map_some,Option.some.injEq,exists_eq_left']
  exact ⟨fetch_faithful_iff dropped blobs http _ _ _,request_faithful_iff blobs http _ _ _⟩

/-- A captured `DELETE` that was answered with two cookies. -/
def cookies (status : ℕ) (values : List String) : HttpExchange :=
  ⟨"DELETE","/v1/cart",none,status,⟨[("set-cookie",values)],by simp⟩,none⟩

def cookiesEvent (status : ℕ) (values : List String) : CapturedEvent :=
  ⟨[],some ⟨"api.example.com","ev_1",some (cookies status values)⟩⟩

def cookiesSignature : MockStore.Signature := engineSignature ⟨"DELETE","api.example.com","/v1/cart",[],""⟩

/-- Two cookies become one, and a response without content cannot be built. -/
theorem cookies_not_faithful :
    mockedFetch (fun _ => false) (fetchMockPack [cookiesEvent 200 ["a=1","b=2"]]) "ev_1" cookiesSignature =
      some (.ok ⟨200,[("set-cookie","a=1")],[]⟩) ∧
    recordedValues (cookies 200 ["a=1","b=2"]).responseHeaders "set-cookie" = ["a=1","b=2"] ∧
    mockedFetch (fun _ => false) (fetchMockPack [cookiesEvent 204 []]) "ev_1" cookiesSignature =
      some (.error .nullBodyStatus) := by
  refine ⟨?_,?_,?_⟩
  · decide +kernel
  · decide +kernel
  · decide +kernel

theorem mocked_response_faithful_cookie :
    ∃ r, mockedFetch (fun _ => false) (fetchMockPack [cookiesEvent 200 ["a=1"]]) "ev_1" cookiesSignature = some r ∧
      FetchFaithful (fun _ => []) (cookies 200 ["a=1"]) r := by
  have htake : (MockStore.take (fetchMockPack [cookiesEvent 200 ["a=1"]]) "ev_1" cookiesSignature).2 =
      some (storeEntry ⟨"ev_1",cookiesSignature,200,⟨[("set-cookie",["a=1"])],by simp⟩,[],""⟩) := by
    decide +kernel
  have hkeeps : FetchKeeps (fun _ => false) (fun _ => []) (cookies 200 ["a=1"]) := by
    refine ⟨⟨by decide,by decide,by decide⟩,trivial,?_⟩
    intro f hf
    obtain rfl : f = ("set-cookie",["a=1"]) := by simpa [cookies] using hf
    exact .inr ⟨"a=1",by decide +kernel⟩
  have hout : (cookiesEvent 200 ["a=1"]).outbound = some ⟨"api.example.com","ev_1",some (cookies 200 ["a=1"])⟩ := rfl
  exact (mocked_response_faithful_iff (fun _ => false) (fun _ => []) hout rfl rfl htake).1.mpr hkeeps

end HermeticResponse
end Clearvoiance
