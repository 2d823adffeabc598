import Clearvoiance.BufferEncodings
import Clearvoiance.OutboundCapture

/-! The response that the Express and the Koa adapter wrap alike: every write goes through the tap before it reaches
the response itself.  What the tap makes of a chunk is compared with what the response writes: the tap knows neither
the encodings nor the methods' callbacks, and reads a `Buffer` again when the response is finished. -/
namespace Clearvoiance
namespace ResponseTap

open BufferEncodings (Encoding encodingOf utf8Bytes)
open JsonStrings (JsString)
open OutboundCapture (CappedBuffer SharedBuffer)
open Hex (Bytes)

/-- The values that may stand in a call; functions are told apart by a number. -/
inductive Value
  | undefined | null
  | text (s : JsString)
  | buffer (b : SharedBuffer)
  | uint8Array (b : SharedBuffer)
  | function (id : ℕ)
  deriving DecidableEq

inductive Method
  | write | endResponse
  deriving DecidableEq

structure Call where
  method : Method
  args : List Value
  deriving DecidableEq

/-- The value of a parameter, which is undefined when the call has no argument for it. -/
def Call.parameter (call : Call) (i : ℕ) : Value := call.args.getD i .undefined

/-- A callback in the place of the encoding leaves the default. -/
def encodingArgument : Value → Option Encoding
  | .undefined | .null | .function _ | .text [] => some .utf8
  | .text name => encodingOf name
  | .buffer _ | .uint8Array _ => none

def chunkBytes (encoding : Encoding) : Value → Option Bytes
  | .text s => some (BufferEncodings.encode encoding s)
  | .buffer b | .uint8Array b => some b.sent
  | .undefined | .null | .function _ => none

/-- The bytes that the response itself takes from a call, or nothing for a call in none of the forms. -/
def Call.written (call : Call) : Option Bytes :=
  match call.method,call.parameter 0 with
  | .endResponse,.undefined | .endResponse,.null | .endResponse,.function _ => some []
  | _,chunk => (encodingArgument (call.parameter 1)).bind fun encoding => chunkBytes encoding chunk

/-- Every call has one of the forms, and nothing follows the end of the response. -/
structure Legal (calls : List Call) : Prop where
  forms : ∀ call ∈ calls, call.written.isSome
  ending : ∀ call ∈ calls.dropLast, call.method = .write

/-- A response without a body, such as the one to a HEAD request, drops what is written. -/
def Call.sent (hasBody : Bool) (call : Call) : Bytes := if hasBody then call.written.getD [] else []

def bytesWritten (hasBody : Bool) (calls : List Call) : Bytes := calls.flatMap (Call.sent hasBody)

/-- `Buffer.from` throws for what is no chunk.  The bytes are those that the tap finds when the response is finished. -/
def toBuffer : Value → Option Bytes
  | .text s => some (utf8Bytes s)
  | .buffer b | .uint8Array b => some b.recorded
  | .undefined | .null | .function _ => none

def Call.forwarded (call : Call) : Call := { call with args := call.parameter 0 :: call.args.tail }

/-- `tappedWrite` and `tappedEnd`, which throw or pass a call on. -/
def tapped (resBuf : CappedBuffer) (call : Call) : Option (CappedBuffer × Call) :=
  match call.parameter 0 with
  | .undefined | .null => some (resBuf,call.forwarded)
  | chunk => (toBuffer chunk).map fun buf => (resBuf.push buf,call.forwarded)

def tapCalls (resBuf : CappedBuffer) : List Call → Option (CappedBuffer × List Call)
  | [] => some (resBuf,[])
  | call :: calls => do
    let (resBuf,call) ← tapped resBuf call
    let (resBuf,calls) ← tapCalls resBuf calls
    pure (resBuf,call :: calls)

def SameCall (call call' : Call) : Prop := call.method = call'.method ∧ call.parameter = call'.parameter

/-- Every call is passed on with its arguments, and what the tap holds is the beginning of what was written. -/
structure Transparent (cap : ℕ) (hasBody : Bool) (calls : List Call) : Prop where
  passed : ∃ resBuf calls', tapCalls (.empty cap) calls = some (resBuf,calls') ∧ List.Forall₂ SameCall calls calls' ∧
    resBuf.toBuffer = (bytesWritten hasBody calls).take cap

def Call.CallbackAlone (call : Call) : Prop := ∃ id, call.parameter 0 = .function id

def Call.taken (call : Call) : Bytes := (toBuffer (call.parameter 0)).getD []

/-- As far as there is room, the tap takes from a call what it writes: a text has the same bytes in UTF-8 as in its own
encoding, and a buffer is not overwritten.  Of a response without a body there is nothing to take. -/
def Call.Kept (hasBody : Bool) (room : ℕ) (call : Call) : Prop :=
  match call.parameter 0 with
  | .undefined | .null => True
  | .function _ => False
  | .text s =>
    if hasBody then ∀ encoding ∈ encodingArgument (call.parameter 1),
      (utf8Bytes s).take room = (BufferEncodings.encode encoding s).take room
    else room = 0 ∨ s = []
  | .buffer b | .uint8Array b =>
    if hasBody then b.recorded.take room = b.sent.take room else room = 0 ∨ b.sent = []

/-- The same for one call after the other, where each takes up the room for what it writes. -/
def AllKept (hasBody : Bool) : ℕ → List Call → Prop
  | _,[] => True
  | room,call :: calls => call.Kept hasBody room ∧ AllKept hasBody (room-(call.sent hasBody).length) calls

theorem sameCall_forwarded (call : Call) : SameCall call call.forwarded := by
  refine ⟨rfl,funext fun i => ?_⟩
  cases i with
  | zero => rfl
  | succ i =>
    unfold Call.parameter Call.forwarded
    cases call.args <;> simp

theorem push_nil (resBuf : CappedBuffer) : resBuf.push [] = resBuf := by simp [CappedBuffer.push]

theorem tapped_eq (resBuf : CappedBuffer) {call : Call} (h : ¬ call.CallbackAlone) :
    tapped resBuf call = some (resBuf.push call.taken,call.forwarded) := by
  unfold tapped Call.taken
  cases hchunk : call.parameter 0 with
  | function id => exact absurd ⟨id,hchunk⟩ h
  | undefined | null => simp [toBuffer,push_nil]
  | text s => simp [toBuffer]
  | buffer b | uint8Array b => simp [toBuffer]

theorem tapped_callbackAlone (resBuf : CappedBuffer) {call : Call} (h : call.CallbackAlone) :
    tapped resBuf call = none := by
  obtain ⟨id,hid⟩ := h
  simp [tapped,hid,toBuffer]

theorem tapCalls_eq (resBuf : CappedBuffer) {calls : List Call} (h : ∀ call ∈ calls, ¬ call.CallbackAlone) :
    tapCalls resBuf calls = some ((calls.map Call.taken).foldl CappedBuffer.push resBuf,calls.map Call.forwarded) := by
  induction calls generalizing resBuf with
  | nil => rfl
  | cons call calls ih =>
    have hcall := tapped_eq resBuf (h call List.mem_cons_self)
    have hcalls := ih (resBuf.push call.taken) fun c hc => h c (List.mem_cons_of_mem _ hc)
    simp [tapCalls,hcall,hcalls]

theorem tapCalls_callbackAlone (resBuf : CappedBuffer) {calls : List Call} {call : Call} (hmem : call ∈ calls)
    (h : call.CallbackAlone) : tapCalls resBuf calls = none := by
  induction calls generalizing resBuf with
  | nil => cases hmem
  | cons c calls ih =>
    rcases List.mem_cons.mp hmem with rfl | hmem
    · simp [tapCalls,tapped_callbackAlone resBuf h]
    · cases htap : tapped resBuf c with
      | none => simp [tapCalls,htap]
      | some next => simp [tapCalls,htap,ih next.1 hmem]

theorem forall₂_forwarded (calls : List Call) : List.Forall₂ SameCall calls (calls.map Call.forwarded) := by
  induction calls with
  | nil => exact .nil
  | cons call calls ih => exact .cons (sameCall_forwarded call) ih

section Room

variable {α β : Type*}

/-- Behind beginnings that agree, what follows is compared as far as there is room. -/
theorem take_append_eq_iff {x y u v : List β} {n : ℕ} (h : x.take n = y.take n) :
    (x ++ u).take n = (y ++ v).take n ↔ u.take (n-y.length) = v.take (n-y.length) := by
  have hlength := congrArg List.length h
  simp only [List.length_take] at hlength
  have hroom : n-x.length = n-y.length := by omega
  rw [List.take_append,List.take_append,h,List.append_cancel_left_eq,hroom]

/-- What two functions make of all beginnings of a list agrees up to `n` exactly when it agrees for the first element
and, in the room behind it, for the beginnings of the rest. -/
theorem beginnings_cons_iff (f g : α → List β) (n : ℕ) (a : α) (l : List α) :
    (∀ p, p <+: a :: l → (p.flatMap f).take n = (p.flatMap g).take n) ↔ (f a).take n = (g a).take n ∧
      ∀ p, p <+: l → (p.flatMap f).take (n-(g a).length) = (p.flatMap g).take (n-(g a).length) := by
  constructor
  · intro h
    have hfirst : (f a).take n = (g a).take n := by
      simpa using h [a] (List.cons_prefix_cons.mpr ⟨rfl,List.nil_prefix⟩)
    refine ⟨hfirst,fun p hp => ?_⟩
    have hboth := h (a :: p) (List.cons_prefix_cons.mpr ⟨rfl,hp⟩)
    rw [List.flatMap_cons,List.flatMap_cons] at hboth
    exact (take_append_eq_iff hfirst).mp hboth
  · rintro ⟨hfirst,hrest⟩ p hp
    cases p with
    | nil => rfl
    | cons b p =>
      obtain ⟨rfl,htail⟩ := List.cons_prefix_cons.mp hp
      rw [List.flatMap_cons,List.flatMap_cons]
      exact (take_append_eq_iff hfirst).mpr (hrest p htail)

end Room

theorem transparent_iff_taken (cap : ℕ) (hasBody : Bool) (calls : List Call) :
    Transparent cap hasBody calls ↔ (∀ call ∈ calls, ¬ call.CallbackAlone) ∧
      (calls.flatMap Call.taken).take cap = (calls.flatMap (Call.sent hasBody)).take cap := by
  have hbuffer : ((calls.map Call.taken).foldl CappedBuffer.push (.empty cap)).toBuffer =
      (calls.flatMap Call.taken).take cap := by
    rw [CappedBuffer.toBuffer_foldl,List.flatMap_def]
  constructor
  · rintro ⟨resBuf,calls',htap,-,hbytes⟩
    have halone : ∀ call ∈ calls, ¬ call.CallbackAlone := by
      intro call hmem h
      rw [tapCalls_callbackAlone _ hmem h] at htap
      cases htap
    rw [tapCalls_eq _ halone,Option.some.injEq,Prod.mk.injEq] at htap
    rw [← htap.1,hbuffer] at hbytes
    exact ⟨halone,hbytes⟩
  · rintro ⟨halone,hbytes⟩
    exact ⟨_,_,tapCalls_eq _ halone,forall₂_forwarded calls,hbuffer.trans hbytes⟩

theorem utf8Bytes_eq_nil_iff (s : JsString) : utf8Bytes s = [] ↔ s = [] := by
  constructor
  · intro h
    have htext : JsonStrings.ofUtf16 s = [] := by
      have hempty := Hex.utf8_injective (h.trans (show [] = Hex.utf8 "" from rfl))
      simpa using congrArg String.toList hempty
    rcases s with _ | ⟨x,_ | ⟨y,t⟩⟩
    · rfl
    · cases htext
    · rw [JsonStrings.ofUtf16] at htext
      split_ifs at htext
  · rintro rfl
    rfl

/-- A call that writes a chunk writes it in its encoding; the others end the response. -/
theorem written_eq_some {call : Call} {bytes : Bytes} (h : call.written = some bytes) :
    (toBuffer (call.parameter 0) = none ∧ bytes = []) ∨
      ∃ encoding, encodingArgument (call.parameter 1) = some encoding ∧
        chunkBytes encoding (call.parameter 0) = some bytes := by
  unfold Call.written at h
  split at h
  · rename_i hchunk
    exact .inl ⟨by rw [hchunk]; rfl,(Option.some.inj h).symm⟩
  · rename_i hchunk
    exact .inl ⟨by rw [hchunk]; rfl,(Option.some.inj h).symm⟩
  · rename_i hchunk
    exact .inl ⟨by rw [hchunk]; rfl,(Option.some.inj h).symm⟩
  · exact .inr (Option.bind_eq_some_iff.mp h)

/-- For a call in one of the forms, the tap takes what it should exactly when the call is kept. -/
theorem kept_iff (hasBody : Bool) (room : ℕ) {call : Call} (h : call.written.isSome) :
    call.Kept hasBody room ↔ ¬ call.CallbackAlone ∧ call.taken.take room = (call.sent hasBody).take room := by
  obtain ⟨bytes,hbytes⟩ := Option.isSome_iff_exists.mp h
  unfold Call.Kept Call.taken Call.sent Call.CallbackAlone
  have hwritten := written_eq_some hbytes
  rw [hbytes]
  cases hchunk : call.parameter 0 with
  | undefined | null =>
    rw [hchunk] at hwritten
    rcases hwritten with ⟨-,hempty⟩ | ⟨encoding,-,hnone⟩
    · simp [toBuffer,hempty]
    · cases hnone
  | function id => simp
  | text s =>
    rw [hchunk] at hwritten
    rcases hwritten with ⟨hnone,-⟩ | ⟨encoding,hencoding,htext⟩
    · cases hnone
    · rw [← Option.some.inj htext]
      cases hasBody with
      | true => simp [toBuffer,hencoding]
      | false => simp [toBuffer,utf8Bytes_eq_nil_iff]
  | buffer b | uint8Array b =>
    rw [hchunk] at hwritten
    have hempty : b.recorded = [] ↔ b.sent = [] := by
      rw [← List.length_eq_zero_iff,← List.length_eq_zero_iff,b.length_eq]
    rcases hwritten with ⟨hnone,-⟩ | ⟨encoding,-,hsent⟩
    · cases hnone
    · rw [← Option.some.inj hsent]
      cases hasBody with
      | true => simp [toBuffer]
      | false => simp [toBuffer,hempty]

theorem allKept_iff (hasBody : Bool) (room : ℕ) {calls : List Call} (h : ∀ call ∈ calls, call.written.isSome) :
    AllKept hasBody room calls ↔ (∀ call ∈ calls, ¬ call.CallbackAlone) ∧
      ∀ p, p <+: calls → (p.flatMap Call.taken).take room = (p.flatMap (Call.sent hasBody)).take room := by
  induction calls generalizing room with
  | nil => simp [AllKept]
  | cons call calls ih =>
    rw [AllKept,kept_iff hasBody room (h call List.mem_cons_self),ih _ fun c hc => h c (List.mem_cons_of_mem _ hc),
      beginnings_cons_iff,List.forall_mem_cons]
    exact and_and_and_comm

/-- The tap is transparent after each of the calls exactly when each is kept in the room that the calls before it have
left. -/
theorem response_tap_iff (cap : ℕ) (hasBody : Bool) {calls : List Call} (hlegal : Legal calls) :
    (∀ calls', calls' <+: calls → Transparent cap hasBody calls') ↔ AllKept hasBody cap calls := by
  simp only [transparent_iff_taken,allKept_iff hasBody cap hlegal.forms]
  constructor
  · exact fun h => ⟨(h calls (List.prefix_refl _)).1,fun p hp => (h p hp).2⟩
  · exact fun h p hp => ⟨fun call hmem => h.1 call (hp.subset hmem),h.2 p hp⟩

/-- `res.write("ok")` and `res.end()`. -/
def okCalls : List Call :=
  [⟨.write,[.text (JsonStrings.utf16 "ok".toList)]⟩,⟨.endResponse,[]⟩]

theorem response_tap_okCalls : Legal okCalls ∧ bytesWritten true okCalls = [0x6F,0x6B] ∧
    ∀ calls, calls <+: okCalls → Transparent 65536 true calls := by
  have hlegal : Legal okCalls := ⟨by decide,by decide⟩
  have hkept : AllKept true 65536 okCalls := by
    refine ⟨fun encoding hencoding => ?_,trivial,trivial⟩
    cases hencoding
    rfl
  exact ⟨hlegal,by decide,(response_tap_iff 65536 true hlegal).mpr hkept⟩

/-- The end of a response with nothing but a callback throws; text in another encoding is recorded in UTF-8; and a
buffer that is used again after it has been written is recorded as it is in the end. -/
theorem callback_alone_throws :
    (Legal [⟨.endResponse,[.function 0]⟩] ∧ tapCalls (.empty 65536) [⟨.endResponse,[.function 0]⟩] = none ∧
        ¬ Transparent 65536 true [⟨.endResponse,[.function 0]⟩]) ∧
      (let latin : List Call := [⟨.write,[.text [0xE9],.text (JsonStrings.utf16 "latin1".toList)]⟩,⟨.endResponse,[]⟩]
       Legal latin ∧ bytesWritten true latin = [0xE9] ∧ latin.flatMap Call.taken = [0xC3,0xA9] ∧
        ¬ Transparent 65536 true latin) ∧
      let reused : List Call := [⟨.write,[.buffer ⟨[0x61],[0x62],rfl⟩]⟩,⟨.write,[.buffer ⟨[0x62],[0x62],rfl⟩]⟩,
        ⟨.endResponse,[]⟩]
      Legal reused ∧ bytesWritten true reused = [0x61,0x62] ∧ reused.flatMap Call.taken = [0x62,0x62] ∧
        ¬ Transparent 65536 true reused := by
  refine ⟨⟨⟨by decide,by decide⟩,rfl,?_⟩,⟨⟨by decide,by decide⟩,by decide,by decide,?_⟩,⟨by decide,by decide⟩,
    by decide,by decide,?_⟩
  · rw [transparent_iff_taken]
    exact fun h => h.1 _ List.mem_cons_self ⟨0,rfl⟩
  · rw [transparent_iff_taken]
    exact fun h => absurd h.2 (by decide)
  · rw [transparent_iff_taken]
    exact fun h => absurd h.2 (by decide)

end ResponseTap
end Clearvoiance
