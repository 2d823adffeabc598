import Clearvoiance.CaseStability
import Clearvoiance.Fetch
import Clearvoiance.MockPack

/-! What is recorded of an outbound request, and when the engine's signature of the record is the one that the
SDK computes from the request itself.  A body is buffered up to a cap and then kept inline, uploaded, or cut
at the inline cap; the engine hashes what is inline. -/
namespace Clearvoiance
namespace OutboundCapture

open Signature MockPack
open JsonStrings (GoString JsString SameString SameNumber goPrinter jsPrinter)

/-- Bytes as they stream past, up to a cap. -/
structure CappedBuffer where
  cap : ℕ
  chunks : List Bytes
  size : ℕ
  truncated : Bool
  counted : size = chunks.flatten.length
  fits : size ≤ cap

namespace CappedBuffer

def empty (cap : ℕ) : CappedBuffer := ⟨cap,[],0,false,rfl,Nat.zero_le cap⟩

def push (b : CappedBuffer) (buf : Bytes) : CappedBuffer :=
  if b.truncated || buf = [] then b
  else if h : b.size+buf.length ≤ b.cap then
    { b with
      chunks := b.chunks ++ [buf]
      size := b.size+buf.length
      counted := by simp [b.counted]
      fits := h }
  else
    { b with
      chunks := if 0 < b.cap-b.size then b.chunks ++ [buf.take (b.cap-b.size)] else b.chunks
      size := b.cap
      truncated := true
      counted := by
        have := b.fits
        have hcount := b.counted
        split_ifs
        · simp only [List.flatten_append,List.flatten_cons,List.flatten_nil,List.append_nil,List.length_append,
            List.length_take]
          omega
        · omega
      fits := le_refl _ }

/-- `Buffer.concat` of as many bytes as were counted. -/
def toBuffer (b : CappedBuffer) : Bytes := b.chunks.flatten.takeD b.size 0

theorem toBuffer_eq (b : CappedBuffer) : b.toBuffer = b.chunks.flatten := by
  rw [toBuffer,List.takeD_eq_take _ (by rw [b.counted]),b.counted,List.take_length]

theorem push_cap (b : CappedBuffer) (buf : Bytes) : (b.push buf).cap = b.cap := by
  unfold push
  split_ifs <;> rfl

/-- The buffer holds the first bytes of what streamed past, and knows whether that is all. -/
structure Holds (b : CappedBuffer) (seen : Bytes) : Prop where
  bytes : b.chunks.flatten = seen.take b.cap
  truncated : b.truncated = true ↔ b.cap < seen.length

theorem Holds.push {b : CappedBuffer} {seen : Bytes} (h : b.Holds seen) (buf : Bytes) :
    (b.push buf).Holds (seen ++ buf) := by
  have hsize : b.size = min b.cap seen.length := by rw [b.counted,h.bytes,List.length_take]
  by_cases hbuf : buf = []
  · subst hbuf
    simpa [CappedBuffer.push] using h
  · have hpos : 0 < buf.length := List.length_pos_iff.mpr hbuf
    by_cases htrunc : b.truncated = true
    · have hlong := h.truncated.mp htrunc
      have hsame : b.push buf = b := by simp [CappedBuffer.push,htrunc]
      rw [hsame]
      refine ⟨?_,?_⟩
      · rw [h.bytes,List.take_append_of_le_length (by omega)]
      · rw [htrunc,List.length_append]
        simp only [true_iff]
        omega
    · have hshort : seen.length ≤ b.cap := by
        by_contra hlong
        exact htrunc (h.truncated.mpr (by omega))
      have hsize : b.size = seen.length := by omega
      have hbytes : b.chunks.flatten = seen := by rw [h.bytes,List.take_of_length_le hshort]
      by_cases hfit : b.size+buf.length ≤ b.cap
      · have hpush : (b.push buf).chunks = b.chunks ++ [buf] ∧ (b.push buf).truncated = b.truncated ∧
            (b.push buf).cap = b.cap := by simp [CappedBuffer.push,htrunc,hbuf,hfit]
        refine ⟨?_,?_⟩
        · rw [hpush.1,hpush.2.2,List.take_of_length_le (by rw [List.length_append]; omega)]
          simp [hbytes]
        · rw [hpush.2.1,hpush.2.2,List.length_append]
          exact iff_of_false htrunc (by omega)
      · have hpush : (b.push buf).chunks =
              (if 0 < b.cap-b.size then b.chunks ++ [buf.take (b.cap-b.size)] else b.chunks) ∧
            (b.push buf).truncated = true ∧ (b.push buf).cap = b.cap := by
          simp [CappedBuffer.push,htrunc,hbuf,hfit]
        refine ⟨?_,?_⟩
        · rw [hpush.1,hpush.2.2,List.take_append,List.take_of_length_le hshort,← hsize]
          split_ifs with hroom
          · simp [hbytes]
          · rw [show b.cap-b.size = 0 by omega]
            simp [hbytes]
        · rw [hpush.2.1,hpush.2.2,List.length_append]
          simp only [true_iff]
          omega

theorem holds_foldl {b : CappedBuffer} {seen : Bytes} (h : b.Holds seen) (bufs : List Bytes) :
    (bufs.foldl push b).Holds (seen ++ bufs.flatten) ∧ (bufs.foldl push b).cap = b.cap := by
  induction bufs generalizing b seen with
  | nil => simpa using h
  | cons buf bufs ih =>
    obtain ⟨hholds,hcap⟩ := ih (h.push buf)
    rw [push_cap] at hcap
    rw [List.append_assoc] at hholds
    exact ⟨hholds,hcap⟩

theorem toBuffer_foldl (cap : ℕ) (bufs : List Bytes) :
    (bufs.foldl push (empty cap)).toBuffer = bufs.flatten.take cap := by
  have hempty : (empty cap).Holds [] := ⟨by simp [empty],by simp [empty]⟩
  obtain ⟨hholds,hcap⟩ := holds_foldl hempty bufs
  rw [toBuffer_eq,hholds.bytes,hcap]
  simp [empty]

end CappedBuffer

/-- Where bodies go that are too long to be inline; an upload may fail. -/
abbrev Uploader := Bytes → Option String → Option BlobRef

structure CaptureOptions where
  maxBodyInlineBytes : ℕ := 64*1024
  maxBodyBlobBytes : ℕ := 10*1024*1024
  uploader : Option Uploader := none
  skipHosts : List String := []

def CaptureOptions.bufferCap (o : CaptureOptions) : ℕ :=
  if o.uploader.isSome then o.maxBodyBlobBytes else o.maxBodyInlineBytes

def CaptureOptions.upload (o : CaptureOptions) (bytes : Bytes) (contentType : Option String) : Option BlobRef :=
  o.uploader.bind fun u => u bytes contentType

def finalizeBody (o : CaptureOptions) (contentType : Option String) (buf : CappedBuffer) : Option Body :=
  if buf.size = 0 then none
  else
    let bytes := buf.toBuffer
    if bytes.length ≤ o.maxBodyInlineBytes then some ⟨some (.inline bytes),contentType.getD ""⟩
    else match o.upload bytes contentType with
      | some ref => some ⟨some (.blob ref),contentType.getD ""⟩
      | none => some ⟨some (.inline (bytes.take o.maxBodyInlineBytes)),contentType.getD ""⟩

def kept (o : CaptureOptions) (contentType : Option String) (body : Bytes) : Bytes :=
  if o.maxBodyInlineBytes < (body.take o.bufferCap).length ∧
      (o.upload (body.take o.bufferCap) contentType).isSome then []
  else body.take (min o.bufferCap o.maxBodyInlineBytes)

def recordedBody (o : CaptureOptions) (contentType : Option String) (bufs : List Bytes) : Option Body :=
  finalizeBody o contentType (bufs.foldl CappedBuffer.push (.empty o.bufferCap))

theorem bodyHash_recorded (o : CaptureOptions) (contentType : Option String) (bufs : List Bytes) :
    bodyHash (inlineBytes (recordedBody o contentType bufs)) (contentTypeOf (recordedBody o contentType bufs)) =
      bodyHash (kept o contentType bufs.flatten) (contentType.getD "") := by
  have hbytes := CappedBuffer.toBuffer_foldl o.bufferCap bufs
  unfold recordedBody finalizeBody kept
  generalize bufs.foldl CappedBuffer.push (.empty o.bufferCap) = buf at hbytes ⊢
  have hsize : buf.size = (bufs.flatten.take o.bufferCap).length := by
    rw [buf.counted,← buf.toBuffer_eq,hbytes]
  simp only [hbytes,hsize]
  generalize bufs.flatten = body
  have hmin : body.take (min o.bufferCap o.maxBodyInlineBytes) =
      (body.take o.bufferCap).take o.maxBodyInlineBytes := by rw [List.take_take,min_comm]
  rw [hmin]
  generalize body.take o.bufferCap = bytes
  by_cases hempty : bytes.length = 0
  · rw [List.length_eq_zero_iff.mp hempty]
    simp [inlineBytes,bodyHash]
  · rw [if_neg hempty]
    by_cases hfit : bytes.length ≤ o.maxBodyInlineBytes
    · rw [if_pos hfit,if_neg (by omega),List.take_of_length_le hfit]
      rfl
    · rw [if_neg hfit]
      cases hup : o.upload bytes contentType with
      | none => simp [inlineBytes,contentTypeOf]
      | some ref =>
        rw [if_pos ⟨by omega,rfl⟩]
        simp [inlineBytes,bodyHash]

def targetFromHost (host : String) : String :=
  match (host.toList.splitOn '.').filter (· ≠ []) with
  | [] | [_] => host
  | first :: second :: rest =>
    if first = ['a','p','i'] then String.ofList second ++ ".api"
    else if (second :: rest).getLast? = some ['l','o','c','a','l'] then host
    else String.ofList (['.'].intercalate ((first :: second :: rest).drop rest.length))

/-- A buffer that its caller may write to again: its bytes when they are sent, or signed instead of being sent, and when
the capture reads them, which is at once for a copy and in the end for a `Buffer` that is kept by reference. -/
structure SharedBuffer where
  sent : Bytes
  recorded : Bytes
  length_eq : recorded.length = sent.length
  deriving DecidableEq

def SharedBuffer.own (b : Bytes) : SharedBuffer := ⟨b,b,rfl⟩

/-- What came back for a request: nothing but an error, or a response. -/
structure Exchange where
  errored : Bool
  status : ℕ
  responseHeaders : HeaderMap
  responseContentType : Option String
  chunks : List Bytes

def plainExchange : Exchange := ⟨false,200,⟨[],List.nodup_nil⟩,none,[]⟩

def buildEvent (o : CaptureOptions) (method host target protocol path causedBy : String) (contentType : Option String)
    (bufs : List Bytes) (x : Exchange) : CapturedEvent :=
  { metadata := [("host",host),("scheme",String.ofList (protocol.toList.erase ':'))]
    outbound := some
      { target := target
        causedByEventId := causedBy
        http := some
          { method := method
            path := path
            requestBody := recordedBody o contentType bufs
            status := if x.errored then 0 else x.status
            responseHeaders := x.responseHeaders
            responseBody := recordedBody o x.responseContentType x.chunks } } }

/-- The document that the engine finds in a body. -/
def goRead (body : Bytes) (contentType : String) : Option (Json GoString Binary64) :=
  if isJson UnicodeCase.goToLower contentType then goDocument body else none

variable (fits : Json JsString Binary64 → Bool)

/-- The document that the SDK finds in a body. -/
def jsRead (body : Bytes) (contentType : String) : Option (Json JsString Binary64) :=
  if isJson UnicodeCase.toLowerCase contentType then jsDocument fits body else none

/-- Both bodies are empty, or neither is and the one as the engine reads it says what the other does as the SDK reads
it: two documents are alike, two other bodies are the same bytes, and a document is written as the other body. -/
def SameBody (body : Bytes) (contentType : String) (body' : Bytes) (contentType' : String) : Prop :=
  body = [] ∧ body' = [] ∨ body ≠ [] ∧ body' ≠ [] ∧
    match goRead body contentType,jsRead fits body' contentType' with
    | none,none => body = body'
    | some v,some w => Json.Alike SameString SameNumber v w
    | some v,none => bytesOf (Json.print goPrinter v) = body'
    | none,some w => body = bytesOf (Json.print jsPrinter w)

theorem goHashed_eq (body : Bytes) (contentType : String) :
    goHashed body contentType = ((goRead body contentType).map fun v => bytesOf (Json.print goPrinter v)).getD body := by
  unfold goHashed goRead
  split_ifs
  · cases goDocument body <;> rfl
  · rfl

theorem jsHashed_eq (body : Bytes) (contentType : String) : jsHashed fits body contentType =
    ((jsRead fits body contentType).map fun w => bytesOf (Json.print jsPrinter w)).getD body := by
  unfold jsHashed jsRead
  split_ifs
  · cases jsDocument fits body <;> rfl
  · rfl

theorem sameBody_iff (body : Bytes) (contentType : String) (body' : Bytes) (contentType' : String) :
    SameBody fits body contentType body' contentType' ↔ body = [] ∧ body' = [] ∨
      body ≠ [] ∧ body' ≠ [] ∧ goHashed body contentType = jsHashed fits body' contentType' := by
  unfold SameBody
  rw [goHashed_eq,jsHashed_eq]
  apply or_congr_right
  apply and_congr_right
  intro _
  apply and_congr_right
  intro _
  cases goRead body contentType with
  | none => cases jsRead fits body' contentType' <;> exact Iff.rfl
  | some v =>
    cases jsRead fits body' contentType' with
    | none => exact Iff.rfl
    | some w =>
      simp only [Option.map_some,Option.getD_some,bytesOf_inj]
      exact (print_eq_iff_alike v w).symm

theorem bodyHash_eq_canonicalBody_iff (body : Bytes) (contentType : String) (body' : Bytes) (contentType' : String) :
    bodyHash body contentType = canonicalBody fits body' contentType' ↔
      SameBody fits body contentType body' contentType' ∨
        body ≠ [] ∧ body' ≠ [] ∧ Collision (goHashed body contentType) (jsHashed fits body' contentType') := by
  unfold bodyHash canonicalBody
  rw [sameBody_iff]
  by_cases hbody : body = []
  · by_cases hbody' : body' = []
    · simp [hbody,hbody']
    · simp only [hbody,hbody',if_true,if_false]
      simpa using (sha256Hex_ne_nil (jsHashed fits body' contentType')).symm
  · by_cases hbody' : body' = []
    · simp only [hbody,hbody',if_true,if_false]
      simpa using sha256Hex_ne_nil (goHashed body contentType)
    · rw [if_neg hbody,if_neg hbody',sha256Hex_eq_iff]
      simp [hbody,hbody']

/-- For one body and content types that are both JSON or both not, the two hashes agree as they do for a request
that is signed on both sides. -/
theorem sameBody_self_iff (body : Bytes) {contentType contentType' : String}
    (h : isJson UnicodeCase.goToLower contentType = isJson UnicodeCase.goToLower contentType') :
    SameBody fits body contentType body contentType' ↔ BodyAgrees fits body contentType := by
  have hjs : jsHashed fits body contentType' = jsHashed fits body contentType := by
    have hjson : ∀ t : String, isJson UnicodeCase.toLowerCase t = isJson UnicodeCase.goToLower t :=
      fun t => UnicodeCase.contains_json _
    unfold jsHashed
    rw [hjson,hjson,h]
  rw [sameBody_iff]
  by_cases hbody : body = []
  · simp [hbody,BodyAgrees]
  · rw [hjs,hashed_eq_iff fits hbody]
    simp [hbody]

def front (upper lower : List Char → List Char) (i : SignatureInput) : List Char :=
  upper i.method.toList ++ '|' :: lower i.host.toList ++ '|' :: i.path.toList

/-- Two requests get one signature, the one from the engine and the other from the SDK, although their texts
differ. -/
def Coincide (i j : SignatureInput) : Prop :=
  Collision (goSigned i) (jsSigned fits j) ∨
    front UnicodeCase.goToUpper UnicodeCase.goToLower i = front UnicodeCase.toUpperCase UnicodeCase.toLowerCase j ∧
      i.body ≠ [] ∧ j.body ≠ [] ∧ Collision (goHashed i.body i.contentType) (jsHashed fits j.body j.contentType)

theorem signature_eq_iff (i j : SignatureInput) :
    goSignatureOf i = signatureOf fits j ↔
      front UnicodeCase.goToUpper UnicodeCase.goToLower i = front UnicodeCase.toUpperCase UnicodeCase.toLowerCase j ∧
        SameBody fits i.body i.contentType j.body j.contentType ∨ Coincide fits i j := by
  rw [goSignatureOf,signatureOf,sha256Hex_eq_iff,signed_eq_iff,bodyHash_eq_canonicalBody_iff]
  unfold Coincide front
  rw [and_or_left,or_assoc]
  exact or_congr_right or_comm

theorem goSigned_congr {i j : SignatureInput} (hmethod : i.method = j.method) (hhost : i.host = j.host)
    (hpath : i.path = j.path) (hbody : bodyHash i.body i.contentType = bodyHash j.body j.contentType) :
    goSigned i = goSigned j := by
  unfold goSigned
  rw [hmethod,hhost,hpath,hbody]

theorem entry_buildEvent (o : CaptureOptions) (method : String) {host target : String} (htarget : host = "" → target = "")
    (protocol path causedBy : String) (contentType : Option String) (bufs : List Bytes) (x : Exchange) :
    ∃ e, entryFromEvent (buildEvent o method host target protocol path causedBy contentType bufs x) = some e ∧
      e.signature.text.toList =
        goSignatureOf ⟨method,host,path,kept o contentType bufs.flatten,contentType.getD ""⟩ := by
  refine ⟨_,rfl,?_⟩
  have hhost : hostOf (buildEvent o method host target protocol path causedBy contentType bufs x)
      ⟨target,causedBy,(buildEvent o method host target protocol path causedBy contentType bufs x).outbound.bind (·.http)⟩ =
      host := by
    by_cases hh : host = ""
    · simp [hostOf,buildEvent,hh,htarget hh]
    · simp [hostOf,buildEvent,hh]
  simp only [engineSignature,String.toList_ofList,goSignatureOf]
  exact congrArg sha256Hex (goSigned_congr rfl hhost rfl (bodyHash_recorded o contentType bufs))

/-- What the SDK has put in upper case, the engine does not change differently. -/
theorem goToUpper_toUpperCase (method : String) :
    UnicodeCase.goToUpper (Fetch.toUpperCase method).toList = UnicodeCase.toUpperCase (Fetch.toUpperCase method).toList := by
  have hplain := UnicodeCase.plainUpper_toUpperCase method.toList
  simp only [Fetch.toUpperCase,String.toList_ofList]
  exact ((UnicodeCase.toUpperCase_eq_goToUpper_iff _).mpr hplain).symm

end OutboundCapture
end Clearvoiance
