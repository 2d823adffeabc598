import Clearvoiance.OutboundCapture

/-! What becomes of a buffered body when the response is finished: it stays inline, is uploaded, or is cut at the
inline cap.  The flag tells whether what is stored is the whole body, unless the buffer may hold nothing at all. -/
namespace Clearvoiance
namespace HttpBody

open OutboundCapture (CappedBuffer)
open MockPack (BlobRef BodyData)
open Signature (Bytes)

structure Body where
  data : BodyData
  contentType : String
  sizeBytes : ℕ
  encoding : String

/-- `uploader` throws an error or yields a reference. -/
structure FinalizeOptions where
  maxBodyInlineBytes : ℕ
  contentType : Option String
  uploader : Option (Bytes → Option String → Except String BlobRef)

/-- The result, with what the uploader was given and the error that was reported. -/
structure FinalizeResult where
  body : Option Body
  redactions : List String
  uploaded : Option Bytes := none
  blobUploadError : Option String := none

/-- The regular expressions are tried without regard to case. -/
def inferEncoding (contentType : Option String) : String :=
  let type := ((contentType.getD "").toList.map Char.toLower)
  if UnicodeCase.contains type "charset=utf-8".toList ||
      ["text/","application/json","application/xml","application/javascript"].any (·.toList.isPrefixOf type)
  then "utf-8" else "binary"

def flagged (truncated : Bool) : List String := if truncated then ["body:truncated"] else []

def finalizeBody (buf : CappedBuffer) (opts : FinalizeOptions) : FinalizeResult :=
  if buf.size = 0 then { body := none, redactions := [] }
  else
    let bytes := buf.toBuffer
    let body (data : BodyData) (sizeBytes : ℕ) : Option Body :=
      some ⟨data,opts.contentType.getD "",sizeBytes,inferEncoding opts.contentType⟩
    if bytes.length ≤ opts.maxBodyInlineBytes then
      { body := body (.inline bytes) bytes.length, redactions := flagged buf.truncated }
    else
      let cut := body (.inline (bytes.take opts.maxBodyInlineBytes)) opts.maxBodyInlineBytes
      match opts.uploader with
      | none => { body := cut, redactions := ["body:truncated"] }
      | some uploadBlob =>
        match uploadBlob bytes opts.contentType with
        | .ok ref =>
          { body := body (.blob ref) bytes.length, redactions := flagged buf.truncated, uploaded := some bytes }
        | .error err =>
          { body := cut, redactions := ["body:truncated"], uploaded := some bytes, blobUploadError := some err }

/-- The bytes that are kept for a body, inline or as a blob. -/
def FinalizeResult.stored (r : FinalizeResult) : Bytes :=
  match r.body with
  | none => []
  | some body =>
    match body.data with
    | .inline bytes => bytes
    | .blob _ => r.uploaded.getD []

/-- What is kept is the beginning of a body, with its length, and is flagged exactly when it is not all of it. -/
structure Captured (all : Bytes) (r : FinalizeResult) : Prop where
  begins : r.stored <+: all
  counted : ∀ body, r.body = some body → body.sizeBytes = r.stored.length
  whole : r.stored = all ↔ "body:truncated" ∉ r.redactions

def bufferOf (cap : ℕ) (chunks : List Bytes) : CappedBuffer := chunks.foldl CappedBuffer.push (.empty cap)

theorem toBuffer_bufferOf (cap : ℕ) (chunks : List Bytes) : (bufferOf cap chunks).toBuffer = chunks.flatten.take cap :=
  CappedBuffer.toBuffer_foldl cap chunks

theorem size_bufferOf (cap : ℕ) (chunks : List Bytes) :
    (bufferOf cap chunks).size = (chunks.flatten.take cap).length := by
  rw [(bufferOf cap chunks).counted,← CappedBuffer.toBuffer_eq,toBuffer_bufferOf]

theorem truncated_bufferOf (cap : ℕ) (chunks : List Bytes) :
    (bufferOf cap chunks).truncated = true ↔ cap < chunks.flatten.length := by
  have hempty : (CappedBuffer.empty cap).Holds [] := ⟨by simp [CappedBuffer.empty],by simp [CappedBuffer.empty]⟩
  obtain ⟨hholds,hcap⟩ := CappedBuffer.holds_foldl hempty chunks
  have htruncated := hholds.truncated
  rwa [hcap] at htruncated

theorem mem_flagged_iff (truncated : Bool) : "body:truncated" ∈ flagged truncated ↔ truncated = true := by
  cases truncated <;> simp [flagged]

theorem captured_buffer {cap : ℕ} {chunks : List Bytes} {r : FinalizeResult}
    (hstored : r.stored = chunks.flatten.take cap)
    (hcounted : ∀ body, r.body = some body → body.sizeBytes = r.stored.length)
    (hflag : r.redactions = flagged (bufferOf cap chunks).truncated) : Captured chunks.flatten r := by
  refine ⟨hstored ▸ List.take_prefix _ _,hcounted,?_⟩
  rw [hstored,hflag,mem_flagged_iff,truncated_bufferOf,List.take_eq_self_iff,not_lt]

theorem captured_cut {cap : ℕ} {chunks : List Bytes} {limit : ℕ} {r : FinalizeResult}
    (hlimit : limit < (chunks.flatten.take cap).length) (hstored : r.stored = (chunks.flatten.take cap).take limit)
    (hcounted : ∀ body, r.body = some body → body.sizeBytes = limit) (hflag : "body:truncated" ∈ r.redactions) :
    Captured chunks.flatten r := by
  have hlength : r.stored.length = limit := by
    rw [hstored,List.length_take]
    omega
  rw [List.length_take] at hlimit
  rw [List.take_take] at hstored
  refine ⟨hstored ▸ List.take_prefix _ _,fun body hbody => ?_,iff_of_false ?_ (not_not.mpr hflag)⟩
  · rw [hlength,hcounted body hbody]
  · rw [hstored,List.take_eq_self_iff]
    omega

/-- The buffer holds the beginning of the body however it was split, and what is kept of it is flagged as it should
be, exactly when the buffer may hold a byte or there is none to hold. -/
theorem body_captured_iff (cap : ℕ) (chunks : List Bytes) (opts : FinalizeOptions) :
    (bufferOf cap chunks).toBuffer = chunks.flatten.take cap ∧
      (Captured chunks.flatten (finalizeBody (bufferOf cap chunks) opts) ↔ 0 < cap ∨ chunks.flatten = []) := by
  refine ⟨toBuffer_bufferOf cap chunks,?_⟩
  unfold finalizeBody
  rw [size_bufferOf,toBuffer_bufferOf]
  by_cases hempty : (chunks.flatten.take cap).length = 0
  · rw [if_pos hempty]
    constructor
    · intro h
      by_contra hne
      rw [not_or] at hne
      exact hne.2 (h.whole.mpr (by simp)).symm
    · intro h
      have hnil : chunks.flatten = [] := by
        rcases h with hcap | hnil
        · rw [List.length_take] at hempty
          exact List.eq_nil_of_length_eq_zero (by omega)
        · exact hnil
      rw [hnil]
      exact ⟨List.nil_prefix,by simp,by simp [FinalizeResult.stored]⟩
  · have hpos : 0 < cap ∨ chunks.flatten = [] := by
      rw [List.length_take] at hempty
      omega
    refine iff_of_true ?_ hpos
    rw [if_neg hempty]
    simp only
    split_ifs with hfit
    · exact captured_buffer rfl (by simp [FinalizeResult.stored]) rfl
    · rw [not_le] at hfit
      cases opts.uploader with
      | none => exact captured_cut hfit rfl (by simp) (by simp)
      | some uploadBlob =>
        cases hup : uploadBlob (chunks.flatten.take cap) opts.contentType with
        | ok ref =>
          simp only [hup]
          exact captured_buffer rfl (by simp [FinalizeResult.stored]) rfl
        | error err =>
          simp only [hup]
          exact captured_cut hfit rfl (by simp) (by simp)

/-- A body of which the buffer holds nothing is not recorded, and nothing says that there was one. -/
theorem body_dropped_unflagged :
    let r := finalizeBody (bufferOf 0 [[0x68,0x69]]) ⟨65536,some "text/plain",none⟩
    r.stored = [] ∧ r.redactions = [] ∧ ¬ Captured [0x68,0x69] r := by
  refine ⟨rfl,rfl,fun h => ?_⟩
  have hwhole := h.whole.mpr (by decide)
  cases hwhole

/-- The recorded body is the one of the outbound adapter, whose options hold the same uploader. -/
theorem finalizeBody_record (buf : CappedBuffer) (opts : FinalizeOptions) (skipHosts : List String)
    (maxBodyBlobBytes : ℕ) :
    (finalizeBody buf opts).body.map (fun body => (⟨some body.data,body.contentType⟩ : MockPack.Body)) =
      OutboundCapture.finalizeBody
        ⟨opts.maxBodyInlineBytes,maxBodyBlobBytes,opts.uploader.map fun u bytes type => (u bytes type).toOption,
          skipHosts⟩
        opts.contentType buf := by
  unfold finalizeBody OutboundCapture.finalizeBody OutboundCapture.CaptureOptions.upload
  simp only
  split_ifs with hempty hfit
  · rfl
  · rfl
  · cases opts.uploader with
    | none => rfl
    | some uploadBlob =>
      cases hup : uploadBlob buf.toBuffer opts.contentType <;> simp [hup,Except.toOption]

end HttpBody
end Clearvoiance
