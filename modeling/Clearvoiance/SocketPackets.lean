import Clearvoiance.Dispatchers
import Clearvoiance.RawMessages
import Clearvoiance.SignatureEquality

/-! A Socket.IO event from the client to the target of a replay.  The SDK hears the event with its arguments and
serialises them; the engine puts the event's name in front of the raw arguments and sends the array behind the
header of the packet.  The packet is the event again unless an acknowledgement was asked for, whose callback is
serialised as one more argument, or the arguments are nested deeper than Go's decoder follows. -/
namespace Clearvoiance
namespace SocketPackets

open Json JsonStrings Utf8Text RawMessages
open CapturedEvents (SocketEvent SocketOp Body)
open Signature (Bytes bytesOf codes)
open SignatureEquality (Finite Double writable)

/-- What a value may hold besides strings, arrays and objects. -/
inductive Leaf
  | number (x : Double)
  | buffer (bytes : Bytes)
  | uint8Array (bytes : Bytes)

inductive Arg
  | value (v : Json JsString Leaf)
  | callback

def js (s : String) : JsString := utf16 s.toList

/-- The replacer of `serializeArgs`; a `Buffer` has its own `toJSON`, which is called before. -/
def leafDocument : Leaf → Json JsString Double
  | .number x => .num x
  | .buffer bytes => .obj [(js "type",.str (js "Buffer")),
      (js "data",.arr (bytes.map fun b => .num (Double.ofLiteral ⟨false,b.toNat,0⟩)))]
  | .uint8Array bytes => .obj [(js "__type",.str (js "Uint8Array")),
      (js "base64",.str (js (Dispatchers.Invoke.encodeBase64 bytes)))]

/-- What `JSON.stringify` writes of an element of an array. -/
def argDocument : Arg → Json JsString Finite
  | .value v => Json.bind writable (Json.bind leafDocument v)
  | .callback => .null

def scriptPrinter : Printer JsString Finite where
  string := jsQuote
  number x := jsNumber x.val
  string_safe := safe_jsQuote
  number_text x := Binary64.signed_text _ x.val

def serializeArgs (args : List Arg) : Bytes := bytesOf (print scriptPrinter (.arr (args.map argDocument)))

structure HookOptions where
  maxPayload : ℕ
  userId : String

structure EmitArgs where
  op : SocketOp
  eventName : Option String
  args : Option (List Arg)

/-- The event that is sent, with its redactions; `none` if the serialiser runs out of stack, which is reported. -/
def emitSocketEvent (fits : List Arg → Bool) (opts : HookOptions) (socketId nsp : String) (ev : EmitArgs) :
    Option (SocketEvent × List String) := do
  let payload ← match ev.args with
    | none => some none
    | some args => if fits args then some (some (serializeArgs args)) else none
  let truncated := payload.any fun bytes => decide (opts.maxPayload < bytes.length)
  let data : Option Body := payload.map fun bytes =>
    ⟨some (.inline (if truncated then bytes.take opts.maxPayload else bytes)),"application/json",bytes.length⟩
  return (⟨socketId,ev.op,nsp,ev.eventName.getD "",data,opts.userId,0⟩,if truncated then ["body:truncated"] else [])

/-- The arguments of an `onAny` listener: what was sent, and the callback of a requested acknowledgement. -/
def onAnyArgs (sent : List (Json JsString Finite)) (ack : Bool) : List Arg :=
  sent.map (fun v => Arg.value (Json.map id (fun x => .number (.finite x)) v)) ++
    if ack then [Arg.callback] else []

/-- The captured event of a packet from the client. -/
def received (fits : List Arg → Bool) (opts : HookOptions) (socketId nsp eventName : String)
    (sent : List (Json JsString Finite)) (ack : Bool) : Option (SocketEvent × List String) :=
  emitSocketEvent fits opts socketId nsp ⟨.recvFromClient,some eventName,some (onAnyArgs sent ack)⟩

/-- `42` and the namespace, unless it is the main one. -/
def header (nsp : String) : List Char :=
  ['4','2'] ++ if nsp ≠ "" ∧ nsp ≠ "/" then nsp.toList ++ [','] else []

def emitEvent (nsp eventName : String) (args : Bytes) : List ℕ :=
  let parsed := if args = [] then [] else (rawElements (codes args)).getD []
  let final := encode (quoted (marshalQuote eventName.toList)) :: parsed.map compact
  encode (header nsp) ++ 0x5B :: [0x2C].intercalate final ++ [0x5D]

structure Event where
  nsp : List Char
  name : JsString
  args : List (Json JsString Double)

/-- An EVENT packet: the namespace up to a comma if there is one, the digits of an acknowledgement, and an array of
the name and the arguments. -/
def decodeEvent : List Char → Option Event
  | '4' :: '2' :: rest =>
    let named := rest.head? = some '/'
    let nsp := if named then rest.takeWhile (· ≠ ',') else ['/']
    let rest := if named then (rest.dropWhile (· ≠ ',')).drop 1 else rest
    match parse ((rest.dropWhile Char.isDigit).flatMap fun c => units c.toNat) with
    | some (.arr (.str name :: args)) => some ⟨nsp,jsString name,args.map (Json.map jsString Double.ofLiteral)⟩
    | _ => none
  | _ => none

def RoundTrips (nsp eventName : String) (sent : List (Json JsString Finite)) (packet : List ℕ) : Prop :=
  ∃ text event, packet = encode text ∧ decodeEvent text = some event ∧ event.nsp = nsp.toList ∧
    event.name = js eventName ∧ AlikeList Eq (fun x y => Double.Same x (.finite y)) event.args sent

section Capture

theorem argDocument_value (v : Json JsString Finite) :
    argDocument (.value (Json.map id (fun x => .number (.finite x)) v)) = v := by
  rw [argDocument,bind_bind]
  exact bind_map_num (f := fun x => Json.bind writable (leafDocument x)) (g := fun x => .number (.finite x))
    (fun _ => rfl) v

def serialised (sent : List (Json JsString Finite)) (ack : Bool) : List (Json JsString Finite) :=
  sent ++ if ack then [Json.null] else []

theorem serializeArgs_onAnyArgs (sent : List (Json JsString Finite)) (ack : Bool) :
    serializeArgs (onAnyArgs sent ack) = bytesOf (print scriptPrinter (.arr (serialised sent ack))) := by
  have hsent : sent.map (argDocument ∘ fun v => .value (Json.map id (fun x => .number (.finite x)) v)) = sent :=
    (List.map_congr_left fun v _ => argDocument_value v).trans (List.map_id' sent)
  rw [serializeArgs,onAnyArgs,List.map_append,List.map_map,hsent,serialised]
  cases ack <;> rfl

theorem received_eq_some {fits : List Arg → Bool} {opts : HookOptions} {socketId nsp eventName : String}
    {sent : List (Json JsString Finite)} {ack : Bool} {ev : SocketEvent}
    (h : received fits opts socketId nsp eventName sent ack = some (ev,[])) :
    ev.nsp = nsp ∧ ev.eventName = eventName ∧
      ∀ w, Dispatchers.fetchedBytes w ev.data = bytesOf (print scriptPrinter (.arr (serialised sent ack))) := by
  rw [← serializeArgs_onAnyArgs]
  unfold received emitSocketEvent at h
  simp only at h
  generalize serializeArgs (onAnyArgs sent ack) = bytes at h
  split_ifs at h with hfits
  · simp only [Option.bind_eq_bind,Option.bind_some,Option.any_some,Option.map_some,Option.pure_def,Option.some.injEq,
      Prod.mk.injEq,Option.getD_some] at h
    obtain ⟨hev,hnotes⟩ := h
    have hcap : ¬ opts.maxPayload < bytes.length := by
      intro hover
      simp [hover] at hnotes
    rw [← hev]
    refine ⟨rfl,rfl,fun w => ?_⟩
    simp [Dispatchers.fetchedBytes,Dispatchers.fetchBody,hcap]
  · cases h

end Capture

section Packet

theorem markup_unicodeEscape (n : ℕ) : (unicodeEscape n).flatMap markup = unicodeEscape n := by
  have hdigit : ∀ m < 16, markup (Hex.digit m) = [Hex.digit m] := by decide
  simp only [unicodeEscape,List.flatMap_cons,List.flatMap_nil,hdigit _ (Nat.mod_lt _ (by decide : 16 > 0))]
  rfl

theorem markup_escapeChar (c : Char) : (escapeChar c).flatMap markup = escapeWith isMarkup c := by
  by_cases hm : isMarkup c = true
  · have hplain : escapeChar c = [c] := by
      simp only [isMarkup,Bool.or_eq_true,decide_eq_true_eq] at hm
      rcases hm with ((rfl | rfl) | rfl) | h
      · rfl
      · rfl
      · rfl
      · exact escapeChar_separator h
    rw [hplain,escapeWith,if_pos hm,List.flatMap_singleton,markup,if_pos hm]
  · rw [escapeWith,if_neg hm]
    unfold escapeChar
    split_ifs
    · rfl
    · rfl
    · rfl
    · rfl
    · rfl
    · rfl
    · rfl
    · exact markup_unicodeEscape _
    · rw [List.flatMap_singleton,markup,if_neg hm]

theorem markup_jsQuote (u : JsString) : (jsQuote u).flatMap markup = jsQuoteWith isMarkup u := by
  have hunit : ∀ x, (quoteUnit x).flatMap markup = quoteUnitWith isMarkup x := by
    intro x
    unfold quoteUnit quoteUnitWith
    split_ifs
    · exact markup_unicodeEscape _
    · exact markup_escapeChar _
  induction u using jsQuote.induct with
  | case1 => rfl
  | case2 x => exact hunit x
  | case3 x y t h ih => rw [jsQuote,jsQuoteWith,if_pos h,if_pos h,List.flatMap_append,markup_escapeChar,ih]
  | case4 x y t h ih => rw [jsQuote,jsQuoteWith,if_neg h,if_neg h,List.flatMap_append,hunit,ih]

/-- The strings of a packet are the event's name and those of the arguments. -/
abbrev Text := GoString ⊕ JsString

def packetString : Text → List Char
  | .inl s => marshalQuote s
  | .inr u => jsQuoteWith isMarkup u

theorem safe_packetString (s : Text) : Safe (packetString s) := by
  cases s with
  | inl s => exact safe_marshalQuote s
  | inr u => exact safe_jsQuoteWith _ u

def packetPrinter : Printer Text Finite where
  string := packetString
  number x := jsNumber x.val
  string_safe := safe_packetString
  number_text x := Binary64.signed_text _ x.val

def scriptLiteral (x : Finite) : Literal := Binary64.textLiteral (x.val.neg && x.val.mant ≠ 0) x.val

def packetItems : Text → List Item
  | .inl s => marshalItems (fun c => units c.toNat) s
  | .inr u => jsItems isMarkup (fun c => units c.toNat) u

def packetReading : Reading packetPrinter (fun c => units c.toNat) where
  items := packetItems
  literal := scriptLiteral
  plain := plain_units
  string
    | .inl s => coding_units.lex_marshalQuote s
    | .inr u => coding_units.lex_jsQuoteWith (fun _ => isMarkup_lt) u
  number x := Binary64.classify_magnitude x.val _

def scriptReading : Reading scriptPrinter encodeChar where
  items := jsItems (fun _ => false) encodeChar
  literal := scriptLiteral
  plain := coding_encodeChar.plain
  string u acc rest := by
    have h := coding_encodeChar.lex_jsQuoteWith (f := fun _ => false) (by simp) u acc rest
    rwa [jsQuoteWith_false] at h
  number x := Binary64.classify_magnitude x.val _

def document (eventName : String) (docs : List (Json JsString Finite)) : Json Text Finite :=
  .arr (.str (.inl eventName.toList) :: docs.map (Json.map .inr id))

def followed (docs : List (Json JsString Finite)) : List (Json JsString Finite) :=
  if 10000 < depth (.arr docs) then [] else docs

theorem encode_intercalate (ts : List (List Char)) :
    encode ([','].intercalate ts) = [0x2C].intercalate (ts.map encode) := by
  have hcomma : encodeChar ',' = [0x2C] := rfl
  cases ts with
  | nil => rfl
  | cons t ts =>
    rw [intercalate_eq,List.map_cons,intercalate_eq,encode_append,List.flatMap_map]
    congr 1
    rw [encode,List.flatMap_assoc]
    simp only [List.flatMap_cons,hcomma,List.singleton_append]
    rfl

theorem print_args (docs : List (Json JsString Finite)) :
    (docs.map fun v => encode (print scriptPrinter v)).map compact =
      (docs.map (Json.map .inr id)).map fun v => encode (print packetPrinter v) := by
  rw [List.map_map,List.map_map]
  refine List.map_congr_left fun v _ => ?_
  simp only [Function.comp_apply]
  rw [compact_print,
    print_markup (p := scriptPrinter) (q := packetPrinter) (f := .inr) (g := id) markup_jsQuote fun _ => rfl]

theorem emitEvent_serialised (nsp eventName : String) (docs : List (Json JsString Finite)) :
    emitEvent nsp eventName (bytesOf (print scriptPrinter (.arr docs))) =
      encode (header nsp ++ print packetPrinter (document eventName (followed docs))) := by
  have hcodes : codes (bytesOf (print scriptPrinter (.arr docs))) = encode (print scriptPrinter (.arr docs)) :=
    utf8_ofList _
  have hne : bytesOf (print scriptPrinter (.arr docs)) ≠ [] := by
    intro h
    rw [h] at hcodes
    rw [print] at hcodes
    cases hcodes
  have hparsed : (rawElements (encode (print scriptPrinter (.arr docs)))).getD [] =
      (followed docs).map fun v => encode (print scriptPrinter v) := by
    rw [rawElements_print scriptReading,followed]
    split_ifs <;> rfl
  unfold emitEvent
  simp only [hcodes,if_neg hne,hparsed,print_args]
  rw [document,print,printList_eq,List.map_cons,encode_append,encode_append,encode_cons,encode_intercalate,List.map_cons,
    List.map_map (f := print packetPrinter),print]
  simp only [List.append_assoc,List.cons_append]
  rfl

theorem ofLiteral_scriptLiteral (x : Finite) : Double.Same (Double.ofLiteral (scriptLiteral x)) (.finite x) := by
  obtain ⟨x,hx⟩ := x
  have hread := Binary64.ofLiteral_textLiteral hx
  have hsame : ∃ y, Binary64.ofLiteral (scriptLiteral ⟨x,hx⟩) = some y ∧ y.mant = x.mant ∧ y.exp = x.exp ∧
      (y.mant = 0 ∨ y.neg = x.neg) := by
    by_cases hm : x.mant = 0
    · have hliteral : scriptLiteral ⟨x,hx⟩ = ⟨false,0,0⟩ := by simp [scriptLiteral,Binary64.textLiteral,hm]
      rw [Binary64.textLiteral,if_pos hm] at hread
      have hxeq : (⟨x.neg,0,-1074⟩ : Binary64) = x := Option.some.inj hread
      have hexp : (-1074 : ℤ) = x.exp := congrArg Binary64.exp hxeq
      rw [hliteral]
      exact ⟨⟨false,0,-1074⟩,rfl,hm.symm,hexp,.inl rfl⟩
    · have hliteral : scriptLiteral ⟨x,hx⟩ = Binary64.textLiteral x.neg x := by simp [scriptLiteral,hm]
      rw [hliteral]
      exact ⟨x,hread,rfl,rfl,.inr rfl⟩
  obtain ⟨y,hy,hfields⟩ := hsame
  obtain ⟨z,hz,rfl⟩ := Double.ofLiteral_finite hy
  rw [hz]
  exact hfields

theorem print_document (eventName : String) (docs : List (Json JsString Finite)) :
    ∃ t, print packetPrinter (document eventName docs) = '[' :: t := ⟨_,by rw [document,print]; rfl⟩

theorem parse_document (eventName : String) (docs : List (Json JsString Finite)) :
    ∃ name args, parse ((print packetPrinter (document eventName docs)).flatMap fun c => units c.toNat) =
        some (.arr (.str name :: args)) ∧ jsString name = js eventName ∧
      args.map (Json.map jsString Double.ofLiteral) =
        docs.map (Json.map id fun x => Double.ofLiteral (scriptLiteral x)) := by
  refine ⟨_,_,packetReading.parse_print _,jsString_marshalItems _,?_⟩
  have hstring : jsString ∘ packetItems ∘ .inr = id := funext jsString_jsItems
  rw [mapList_eq,List.map_map,List.map_map]
  refine List.map_congr_left fun v _ => ?_
  simp only [Function.comp_apply,map_map]
  rw [← hstring]
  rfl

/-- A packet is read as the name and the arguments that it was written with. -/
theorem decodeEvent_packet {nsp : String} (hstart : nsp.toList.head? = some '/') (hcomma : ',' ∉ nsp.toList)
    (eventName : String) (docs : List (Json JsString Finite)) :
    decodeEvent (header nsp ++ print packetPrinter (document eventName docs)) =
      some ⟨nsp.toList,js eventName,docs.map (Json.map id fun x => Double.ofLiteral (scriptLiteral x))⟩ := by
  obtain ⟨t,ht⟩ := print_document eventName docs
  obtain ⟨name,args,hparse,hname,hargs⟩ := parse_document eventName docs
  have hdigits : (print packetPrinter (document eventName docs)).dropWhile Char.isDigit =
      print packetPrinter (document eventName docs) := by
    rw [ht]
    rfl
  have hne : nsp ≠ "" := by
    rintro rfl
    cases hstart
  by_cases hmain : nsp = "/"
  · have hhead : (print packetPrinter (document eventName docs)).head? ≠ some '/' := by
      rw [ht]
      simp
    have hheader : header nsp = ['4','2'] := by simp [header,hmain]
    rw [hheader]
    simp only [List.cons_append,List.nil_append,decodeEvent,hhead,if_false,hdigits,hparse,hname,hargs,hmain]
    rfl
  · have hheader : header nsp = '4' :: '2' :: (nsp.toList ++ [',']) := by simp [header,hmain,hne]
    obtain ⟨htake,hdrop⟩ := Hex.divide_at hcomma (print packetPrinter (document eventName docs))
    have hhead : (nsp.toList ++ ',' :: print packetPrinter (document eventName docs)).head? = some '/' := by
      rw [List.head?_append,hstart]
      rfl
    rw [hheader]
    simp only [List.cons_append,List.nil_append,List.append_assoc,decodeEvent,hhead,if_true,htake,hdrop,List.drop_one,
      List.tail_cons,hdigits,hparse,hname,hargs]

/-- The arguments that are read from a packet are the ones that were sent as long as those are all that it holds. -/
theorem alike_followed (sent : List (Json JsString Finite)) (ack : Bool) :
    AlikeList Eq (fun x y => Double.Same x (.finite y))
        ((followed (serialised sent ack)).map (Json.map id fun x => Double.ofLiteral (scriptLiteral x))) sent ↔
      followed (serialised sent ack) = sent := by
  constructor
  · intro h
    have hlength : (followed (serialised sent ack)).length = sent.length := by
      have hlist := ((alikeList_iff _ _ _ _).mp h).1
      rwa [List.length_map] at hlist
    rw [followed] at hlength ⊢
    split_ifs at hlength ⊢ with hdeep
    · exact (List.eq_nil_of_length_eq_zero hlength.symm).symm
    · rw [serialised,List.length_append,Nat.add_eq_left] at hlength
      rw [serialised,List.eq_nil_of_length_eq_zero hlength,List.append_nil]
  · intro h
    rw [h]
    have halike : Alike Eq (fun x y => Double.Same x (.finite y))
        (Json.map id (fun x => Double.ofLiteral (scriptLiteral x)) (.arr sent)) (.arr sent) :=
      map_alike (fun _ => rfl) ofLiteral_scriptLiteral (.arr sent)
    rwa [Json.map,Alike,mapList_eq] at halike

/-- The packet holds the arguments that were sent exactly when there is no callback behind them and Go's decoder
follows them. -/
theorem followed_eq_iff (sent : List (Json JsString Finite)) (ack : Bool) :
    followed (serialised sent ack) = sent ↔ ack = false ∧ depth (.arr sent) ≤ 10000 := by
  have hempty : depth (.arr ([] : List (Json JsString Finite))) = 1 := rfl
  have hnull : depth (.arr [(.null : Json JsString Finite)]) = 1 := rfl
  rw [followed,serialised]
  cases ack with
  | false =>
    simp only [Bool.false_eq_true,if_false,List.append_nil,true_and]
    split_ifs with hdeep
    · constructor
      · rintro rfl
        omega
      · intro hshallow
        omega
    · exact ⟨fun _ => by omega,fun _ => rfl⟩
  | true =>
    simp only [if_true,Bool.true_eq_false,false_and,iff_false]
    split_ifs with hdeep
    · rintro rfl
      rw [List.nil_append,hnull] at hdeep
      omega
    · intro h
      simpa using congrArg List.length h

/-- The packet of serialised arguments is the event that was sent exactly when it holds the arguments that were
sent and no others. -/
theorem round_trips_serialised {nsp : String} (hstart : nsp.toList.head? = some '/') (hcomma : ',' ∉ nsp.toList)
    (eventName : String) (sent : List (Json JsString Finite)) (ack : Bool) :
    RoundTrips nsp eventName sent
        (emitEvent nsp eventName (bytesOf (print scriptPrinter (.arr (serialised sent ack))))) ↔
      ack = false ∧ depth (.arr sent) ≤ 10000 := by
  rw [emitEvent_serialised,← followed_eq_iff,← alike_followed]
  have hdecode := decodeEvent_packet hstart hcomma eventName (followed (serialised sent ack))
  constructor
  · rintro ⟨text,event,htext,hevent,-,-,halike⟩
    rw [← encode_injective htext,hdecode] at hevent
    rwa [← Option.some.inj hevent] at halike
  · intro halike
    exact ⟨_,_,rfl,hdecode,rfl,rfl,halike⟩

/-- A packet is the event that was sent exactly when no acknowledgement was asked for and the arguments are not
nested deeper than Go's decoder follows. -/
theorem round_trips_iff {fits : List Arg → Bool} {opts : HookOptions} {socketId nsp eventName : String}
    (hstart : nsp.toList.head? = some '/') (hcomma : ',' ∉ nsp.toList) {sent : List (Json JsString Finite)} {ack : Bool}
    {ev : SocketEvent} (hev : received fits opts socketId nsp eventName sent ack = some (ev,[]))
    (w : Dispatchers.World) :
    RoundTrips nsp eventName sent (emitEvent ev.nsp ev.eventName (Dispatchers.fetchedBytes w ev.data)) ↔
      ack = false ∧ depth (.arr sent) ≤ 10000 := by
  obtain ⟨hnsp,hname,hargs⟩ := received_eq_some hev
  rw [hnsp,hname,hargs]
  exact round_trips_serialised hstart hcomma eventName sent ack

/-- The event of a client that says hi in a chat, without an acknowledgement. -/
def chat : SocketEvent :=
  ⟨"s1",.recvFromClient,"/","chat",some ⟨some (.inline (bytesOf "[\"hi\"]".toList)),"application/json",6⟩,"",0⟩

theorem received_chat :
    received (fun _ => true) ⟨65536,""⟩ "s1" "/" "chat" [.str (js "hi")] false = some (chat,[]) := rfl

def plainWorld : Dispatchers.World where
  blobs := none
  mutate bytes _ _ := .ok bytes
  newRequest _ _ := none
  applyAuth := .ok
  exchange _ := .error "no network"
  elapsedNs := 0
  openClient _ _ := none
  client := true
  emitEvent _ _ bytes := (bytes.length,none)

theorem round_trips_iff_chat : RoundTrips "/" "chat" [.str (js "hi")]
    (emitEvent chat.nsp chat.eventName (Dispatchers.fetchedBytes plainWorld chat.data)) :=
  (round_trips_iff rfl (by decide) received_chat plainWorld).mpr ⟨rfl,by decide⟩

/-- The same event with an acknowledgement, whose callback is captured as `null`. -/
def acknowledgedChat : SocketEvent :=
  ⟨"s1",.recvFromClient,"/","chat",some ⟨some (.inline (bytesOf "[\"hi\",null]".toList)),"application/json",11⟩,"",0⟩

/-- The target gets an argument that the client never sent. -/
theorem callback_replayed :
    received (fun _ => true) ⟨65536,""⟩ "s1" "/" "chat" [.str (js "hi")] true = some (acknowledgedChat,[]) ∧
      emitEvent acknowledgedChat.nsp acknowledgedChat.eventName
          (Dispatchers.fetchedBytes plainWorld acknowledgedChat.data) =
        encode "42[\"chat\",\"hi\",null]".toList ∧
      ¬ RoundTrips "/" "chat" [.str (js "hi")] (emitEvent acknowledgedChat.nsp acknowledgedChat.eventName
        (Dispatchers.fetchedBytes plainWorld acknowledgedChat.data)) := by
  have hbytes : Dispatchers.fetchedBytes plainWorld acknowledgedChat.data =
      bytesOf (print scriptPrinter (.arr (serialised [.str (js "hi")] true))) := rfl
  refine ⟨rfl,?_,?_⟩
  · rw [hbytes,emitEvent_serialised]
    rfl
  · intro h
    rw [hbytes] at h
    cases ((round_trips_serialised rfl (by decide) "chat" _ _).mp h).1

end Packet

end SocketPackets
end Clearvoiance
