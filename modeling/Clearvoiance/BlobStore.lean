import Clearvoiance.EntryPoints
import Clearvoiance.Dispatchers
import Clearvoiance.HttpBody
import Clearvoiance.LexicalPath
import Clearvoiance.Transition

/-! Large bodies.  The SDK hashes a body, asks the engine for an upload URL and puts the body under the key of its
session and hash, unless the bucket holds that key already.  Anyone who knows a session gets a URL for any hash and
may put what he likes.  A replay reads bodies back by bucket and key. -/
namespace Clearvoiance
namespace BlobStore

open EntryPoints (GetBlobUploadURLRequest)
open Middleware (Code Status)
open MockPack (BlobRef)
open Transition

abbrev Bytes := Hex.Bytes

/-- The objects of the bucket by key, newest first. -/
abbrev Objects := List (String × Bytes)

/-- The environment of one step: an error of the call that the checks below do not give, from the session lookup to
the transport; the errors of the HEAD request and of the presigner; and how the PUT ends, with its effect or
without. -/
structure Env where
  grpc : Option Status := none
  head : Option String := none
  presign : Option String := none
  thrown : Option String := none
  status : ℕ := 200
  text : String := ""
  lands : Bool := false
  deriving DecidableEq

def digest (data : Bytes) : String := String.ofList (Hex.encodeToString (Sha256.sum256 data))

def blobKey (sessionID sha256 : String) : String :=
  String.ofList (LexicalPath.join ["sessions".toList,sessionID.toList,"blobs".toList,sha256.toList])

inductive Caller
  | sdk | other
  deriving DecidableEq

inductive Pc
  | uploadBlob (session : Option String) (data : Bytes) (contentType : Option String)
  | request (c : Caller) (req : GetBlobUploadURLRequest) (data : Bytes)
  | head (c : Caller) (key : String) (sizeBytes : ℤ) (data : Bytes)
  | put (c : Caller) (key : String) (sizeBytes : ℤ) (data : Bytes)

inductive Reply
  | uploaded (data : Bytes) (ref : BlobRef)
  | thrown (text : String)
  | refused (status : Status)
  | closed
  deriving DecidableEq

def Caller.answer (bucket key : String) (data : Bytes) : Caller → Reply
  | .sdk => .uploaded data ⟨bucket,key,digest data⟩
  | .other => .closed

/-- The URL is signed for one length. -/
def accepted (e : Env) (sizeBytes : ℤ) (data : Bytes) : Bool :=
  data.length = sizeBytes && e.thrown.isNone && 200 ≤ e.status && e.status < 300

def stored (e : Env) (sizeBytes : ℤ) (data : Bytes) : Bool :=
  accepted e sizeBytes data || data.length = sizeBytes && e.lands

/-- One step under a bucket, or without blob storage. -/
def advance (bucket : Option String) (e : Env) (objects : Objects) : Pc → Objects × (Pc ⊕ Reply)
  | .uploadBlob none _ _ => (objects,.inr (.thrown "client not started — call start() before uploadBlob()"))
  | .uploadBlob (some sessionID) data contentType =>
    (objects,.inl (.request .sdk
      ⟨sessionID,digest data,data.length,contentType.getD "application/octet-stream"⟩ data))
  | .request c req data =>
    match e.grpc with
    | some status => (objects,.inr (.refused status))
    | none =>
      if req.sha256 = "" then (objects,.inr (.refused ⟨.invalidArgument,"sha256 is required"⟩))
      else if req.sizeBytes ≤ 0 then (objects,.inr (.refused ⟨.invalidArgument,"size_bytes must be > 0"⟩))
      else if bucket = none then
        (objects,.inr (.refused ⟨.failedPrecondition,"blob storage is not configured on this engine"⟩))
      else if req.sessionID = "" then
        (objects,.inr (.refused ⟨.internal,"presign put: blob: session_id and sha256 are required"⟩))
      else (objects,.inl (.head c (blobKey req.sessionID req.sha256) req.sizeBytes data))
  | .head c key sizeBytes data =>
    match e.grpc with
    | some status => (objects,.inr (.refused status))
    | none =>
      if e.head = none ∧ (objects.lookup key).isSome then (objects,.inr (c.answer (bucket.getD "") key data))
      else match e.presign with
        | some text => (objects,.inr (.refused ⟨.internal,"presign put: blob: presign put: " ++ text⟩))
        | none => (objects,.inl (.put c key sizeBytes data))
  | .put c key sizeBytes data =>
    (if stored e sizeBytes data then (key,data) :: objects else objects,
      .inr (if accepted e sizeBytes data then c.answer (bucket.getD "") key data
        else match e.thrown with
          | some text => .thrown text
          | none => .thrown ("blob upload failed: " ++ toString e.status ++ " " ++ e.text)))

inductive Call
  | uploadBlob (session : Option String) (data : Bytes) (contentType : Option String)
  | other (req : GetBlobUploadURLRequest) (data : Bytes)

def entry : Call → Pc
  | .uploadBlob session data contentType => .uploadBlob session data contentType
  | .other req data => .request .other req data

abbrev State := Pool Objects Pc Reply

abbrev Action := Act Call Env

def step (bucket : Option String) : State → Action → Option State := Pool.step entry (advance bucket)

def init : State := ⟨[],[],[]⟩

/-- `S3.Get`; `missing` is the storage's error for an object that it does not have. -/
def get (bucket : String) (missing : CapturedEvents.BlobRef → String) (objects : Objects)
    (ref : CapturedEvents.BlobRef) : Except String Bytes :=
  match if ref.bucket = bucket then objects.lookup ref.key else none with
  | some data => .ok data
  | none => .error ("blob get " ++ ref.bucket ++ "/" ++ ref.key ++ ": " ++ missing ref)

/-- The key ends in the hash of the bytes. -/
def Named (key : String) (data : Bytes) : Prop := LexicalPath.base key.toList = (digest data).toList

section Keys

theorem digest_plain (data : Bytes) : LexicalPath.Plain (digest data).toList := by
  have hlength : (digest data).toList.length = 64 := by simp [digest]
  refine ⟨?_,?_,?_,?_⟩
  · exact fun h => by simp [h] at hlength
  · exact fun h => by simp [h] at hlength
  · exact fun h => by simp [h] at hlength
  · intro hmem
    rw [digest,String.toList_ofList] at hmem
    have hslash := Hex.of_mem_encodeToString (P := fun c => c ≠ '/') (by decide) hmem
    exact hslash rfl

theorem named_blobKey (sessionID : String) (data : Bytes) : Named (blobKey sessionID (digest data)) data := by
  rw [Named,blobKey,String.toList_ofList]
  exact LexicalPath.base_join ["sessions".toList,sessionID.toList,"blobs".toList] (digest_plain data)

theorem digest_eq_of_named {key : String} {data data' : Bytes} (h : Named key data) (h' : Named key data') :
    digest data = digest data' := String.toList_inj.mp (h.symm.trans h')

theorem blobKey_inj {sessionID sessionID' sha256 sha256' : String} (h : LexicalPath.Plain sessionID.toList)
    (h' : LexicalPath.Plain sessionID'.toList) (hs : LexicalPath.Plain sha256.toList)
    (hs' : LexicalPath.Plain sha256'.toList) (heq : blobKey sessionID sha256 = blobKey sessionID' sha256') :
    sessionID = sessionID' ∧ sha256 = sha256' := by
  have hparts : ∀ id sha : String, LexicalPath.Plain id.toList → LexicalPath.Plain sha.toList →
      ∀ part ∈ ["sessions".toList,id.toList,"blobs".toList,sha.toList], LexicalPath.Plain part := by
    intro id sha hid hsha
    have hsessions : LexicalPath.Plain "sessions".toList := ⟨by simp,by simp,by simp,by simp⟩
    have hblobs : LexicalPath.Plain "blobs".toList := ⟨by simp,by simp,by simp,by simp⟩
    exact List.forall_mem_cons.mpr ⟨hsessions,List.forall_mem_cons.mpr ⟨hid,List.forall_mem_cons.mpr
      ⟨hblobs,List.forall_mem_singleton.mpr hsha⟩⟩⟩
  have hlists := LexicalPath.join_injective (hparts _ _ h hs) (hparts _ _ h' hs') (by simp) (by simp)
    (String.ofList_injective heq)
  simp only [List.cons.injEq,and_true,true_and] at hlists
  exact ⟨String.toList_inj.mp hlists.1,String.toList_inj.mp hlists.2⟩

end Keys

section Soundness

variable {bucket : Option String} {W : Bytes → Prop} {K : String → Prop}
variable {e : Env} {objects objects' : Objects} {p : Pc}

/-- What a call in flight knows of its body, one of the bodies `W`.  The SDK asks for a key that names its body;
another client does so among the keys `K`. -/
def Pc.Sound (W : Bytes → Prop) (K : String → Prop) : Pc → Prop
  | .uploadBlob _ data _ => W data
  | .request .sdk req data => W data ∧ req.sha256 = digest data
  | .request .other req data =>
    W data ∧ (K (blobKey req.sessionID req.sha256) → Named (blobKey req.sessionID req.sha256) data)
  | .head c k _ data | .put c k _ data => W data ∧ (c = .sdk ∨ K k → Named k data)

def Stocked (W : Bytes → Prop) (K : String → Prop) (objects : Objects) : Prop :=
  ∀ k data, (k,data) ∈ objects → W data ∧ (K k → Named k data)

def Reply.Sound (bucket : String) (objects : Objects) : Reply → Prop
  | .uploaded data ref =>
    ref.bucket = bucket ∧ ref.sha256 = digest data ∧ Named ref.key data ∧ (objects.lookup ref.key).isSome
  | _ => True

def Grown (objects objects' : Objects) : Prop := ∀ k, (objects.lookup k).isSome → (objects'.lookup k).isSome

theorem Grown.refl (objects : Objects) : Grown objects objects := fun _ h => h

theorem grown_cons (objects : Objects) (o : String × Bytes) : Grown objects (o :: objects) := by
  intro k hk
  rw [List.lookup_cons]
  split
  · rfl
  · exact hk

theorem Reply.Sound.grown {b : String} {v : Reply} (h : v.Sound b objects) (hgrown : Grown objects objects') :
    v.Sound b objects' := by
  cases v with
  | uploaded data ref => exact ⟨h.1,h.2.1,h.2.2.1,hgrown _ h.2.2.2⟩
  | _ => trivial

theorem answer_sound {c : Caller} {k : String} {data : Bytes} (hnamed : c = .sdk → Named k data)
    (hk : (objects.lookup k).isSome) : (c.answer (bucket.getD "") k data).Sound (bucket.getD "") objects := by
  cases c with
  | sdk => exact ⟨rfl,rfl,hnamed rfl,hk⟩
  | other => trivial

structure Advanced (bucket : Option String) (W : Bytes → Prop) (K : String → Prop) (objects : Objects)
    (r : Objects × (Pc ⊕ Reply)) : Prop where
  stocked : Stocked W K r.1
  grown : Grown objects r.1
  next : ∀ p', r.2 = .inl p' → p'.Sound W K
  reply : ∀ v, r.2 = .inr v → v.Sound (bucket.getD "") r.1

theorem advanced_moved (h : Stocked W K objects) (hp : p.Sound W K) :
    Advanced bucket W K objects (objects,.inl p) where
  stocked := h
  grown := .refl objects
  next := by
    rintro p' ⟨⟩
    exact hp
  reply := by simp

theorem advanced_replied {v : Reply} (h : Stocked W K objects) (hv : v.Sound (bucket.getD "") objects) :
    Advanced bucket W K objects (objects,.inr v) where
  stocked := h
  grown := .refl objects
  next := by simp
  reply := by
    rintro v' ⟨⟩
    exact hv

theorem advanced (bucket : Option String) (e : Env) (h : Stocked W K objects) (hp : p.Sound W K) :
    Advanced bucket W K objects (advance bucket e objects p) := by
  cases p with
  | uploadBlob session data contentType =>
    cases session with
    | none => exact advanced_replied h trivial
    | some sessionID => exact advanced_moved h ⟨hp,rfl⟩
  | request c req data =>
    simp only [advance]
    split
    · exact advanced_replied h trivial
    · split_ifs
      · exact advanced_replied h trivial
      · exact advanced_replied h trivial
      · exact advanced_replied h trivial
      · exact advanced_replied h trivial
      · refine advanced_moved h ?_
        cases c with
        | sdk => exact ⟨hp.1,fun _ => hp.2 ▸ named_blobKey req.sessionID data⟩
        | other =>
          refine ⟨hp.1,fun hk => ?_⟩
          rcases hk with hk | hk
          · cases hk
          · exact hp.2 hk
  | head c k sizeBytes data =>
    simp only [advance]
    split
    · exact advanced_replied h trivial
    · split_ifs with hfound
      · exact advanced_replied h (answer_sound (fun hc => hp.2 (.inl hc)) hfound.2)
      · split
        · exact advanced_replied h trivial
        · exact advanced_moved h hp
  | put c k sizeBytes data =>
    have hstocked : Stocked W K ((k,data) :: objects) := by
      intro k' data' hmem
      rcases List.mem_cons.mp hmem with hmem | hmem
      · cases hmem
        exact ⟨hp.1,fun hk => hp.2 (.inr hk)⟩
      · exact h k' data' hmem
    simp only [advance]
    constructor
    · dsimp only
      split_ifs
      · exact hstocked
      · exact h
    · dsimp only
      split_ifs
      · exact grown_cons objects (k,data)
      · exact .refl objects
    · simp
    · rintro v ⟨⟩
      split_ifs with hstored haccepted haccepted
      · exact answer_sound (fun hc => hp.2 (.inl hc)) (by simp)
      · split <;> trivial
      · exact absurd (by simp [stored,haccepted]) hstored
      · split <;> trivial

end Soundness

section Runs

variable {b : String} {bucket : Option String} {s : State} {as : List Action} {data : Bytes} {ref : BlobRef}

def Call.body : Call → Bytes
  | .uploadBlob _ data _ => data
  | .other _ data => data

theorem entry_sound {W : Bytes → Prop} {K : String → Prop} {c : Call} (hW : W c.body)
    (hK : ∀ req data, c = .other req data → K (blobKey req.sessionID req.sha256) →
      Named (blobKey req.sessionID req.sha256) data) : (entry c).Sound W K := by
  cases c with
  | uploadBlob session data contentType => exact hW
  | other req data => exact ⟨hW,hK req data rfl⟩

theorem sound_run {K : String → Prop} (h : Run (step bucket) (fun _ _ => True) init as s)
    (hK : ∀ req data, .invoke (.other req data) ∈ as → K (blobKey req.sessionID req.sha256) →
      Named (blobKey req.sessionID req.sha256) data) :
    Stocked (fun data => ∃ c, .invoke c ∈ as ∧ c.body = data) K s.shared ∧
      ∀ v ∈ s.replies, v.Sound (bucket.getD "") s.shared := by
  have hrun : Run (step bucket) (fun _ a => a ∈ as) init as s :=
    h.labelled.mono fun _ _ hlabel => hlabel.1
  refine (Pool.run_holds (G := fun objects replies _ => Stocked (fun data => ∃ c, .invoke c ∈ as ∧ c.body = data) K
      objects ∧ ∀ v ∈ replies, v.Sound (bucket.getD "") objects)
    (T := fun p _ _ => p.Sound (fun data => ∃ c, .invoke c ∈ as ∧ c.body = data) K)
    (C := fun _ _ => True) (fun _ _ _ => trivial) ?_ ?_ ?_ hrun ?_).shared
  · intro s c hc hs
    exact ⟨hs.shared,entry_sound ⟨c,hc,rfl⟩ (fun req data hcall => hK req data (hcall ▸ hc)),fun _ _ => trivial⟩
  · intro s i e p o objects p' _ _ _ hadv hG hp ho _
    have hadvanced := advanced bucket e hG.1 hp
    rw [hadv] at hadvanced
    exact ⟨⟨hadvanced.stocked,fun v hv => (hG.2 v hv).grown hadvanced.grown⟩,hadvanced.next p' rfl,ho,
      fun _ _ => trivial⟩
  · intro s i e p o objects v _ _ _ hadv hG hp ho _
    have hadvanced := advanced bucket e hG.1 hp
    rw [hadv] at hadvanced
    refine ⟨⟨hadvanced.stocked,fun v' hv' => ?_⟩,ho⟩
    rcases List.mem_cons.mp hv' with rfl | hv'
    · exact hadvanced.reply v' rfl
    · exact (hG.2 v' hv').grown hadvanced.grown
  · exact ⟨⟨by simp [init,Stocked],by simp [init]⟩,by simp [init],List.Pairwise.nil⟩

/-- Whoever else puts something under the key of the reference puts what its hash names. -/
def Spared (ref : BlobRef) (as : List Action) : Prop :=
  ∀ req data, .invoke (.other req data) ∈ as → blobKey req.sessionID req.sha256 = ref.key → digest data = ref.sha256

/-- Where the ids are segments, only a request for the same session and hash can meet the reference. -/
theorem spared_of_plain {sessionID sha256 : String} (hid : LexicalPath.Plain sessionID.toList)
    (hsha : LexicalPath.Plain sha256.toList)
    (h : ∀ req data, .invoke (.other req data) ∈ as → LexicalPath.Plain req.sessionID.toList ∧
      LexicalPath.Plain req.sha256.toList ∧
      (req.sessionID = sessionID → req.sha256 = sha256 → digest data = sha256)) :
    Spared ⟨b,blobKey sessionID sha256,sha256⟩ as := by
  intro req data hmem hkey
  obtain ⟨hreq,hreqSha,hhonest⟩ := h req data hmem
  obtain ⟨hid',hsha'⟩ := blobKey_inj hreq hid hreqSha hsha hkey
  exact hhonest hid' hsha'

/-- A reference that the SDK was given resolves from then on, whatever the other calls and failures, to a body of its
hash. -/
theorem uploads_resolve (h : Run (step bucket) (fun _ _ => True) init as s) (hup : .uploaded data ref ∈ s.replies)
    (hspared : Spared ref as) : ref.sha256 = digest data ∧ ∃ c, .invoke c ∈ as ∧ digest c.body = digest data ∧
      ∀ missing, get (bucket.getD "") missing s.shared ⟨ref.bucket,ref.key⟩ = .ok c.body := by
  obtain ⟨-,hsound⟩ := sound_run (K := fun _ => False) h (by simp)
  obtain ⟨hbucket,hsha,hnamed,hsome⟩ := hsound _ hup
  obtain ⟨hstocked,-⟩ := sound_run (K := (· = ref.key)) h fun req body hmem hkey => by
    rw [Named,hkey,hspared req body hmem hkey,hsha]
    exact hnamed
  obtain ⟨found,hfound⟩ := Option.isSome_iff_exists.mp hsome
  obtain ⟨before,after,hobjects,-⟩ := List.lookup_eq_some_iff.mp hfound
  obtain ⟨⟨c,hc,rfl⟩,hkey⟩ := hstocked ref.key found (hobjects ▸ by simp)
  refine ⟨hsha,c,hc,digest_eq_of_named (hkey rfl) hnamed,fun missing => ?_⟩
  rw [get,if_pos hbucket]
  simp only [hfound]

def replayed (body : HttpBody.Body) : CapturedEvents.Body where
  data := some (match body.data with
    | .inline bytes => .inline bytes
    | .blob ref => .blob ⟨ref.bucket,ref.key⟩)
  contentType := body.contentType
  sizeBytes := body.sizeBytes

/-- A replay fetches of a captured body exactly what the capture kept of it: the bytes inline, or those of the blob,
where nobody else writes under its key and no other body has its hash. -/
theorem captured_body_replays {buf : OutboundCapture.CappedBuffer} {opts : HttpBody.FinalizeOptions}
    {w : Dispatchers.World} (h : Run (step (some b)) (fun _ _ => True) init as s)
    (hupload : ∀ up ref, opts.uploader = some up → up buf.toBuffer opts.contentType = .ok ref →
      .uploaded buf.toBuffer ref ∈ s.replies ∧ Spared ref as)
    (hcollision : ∀ c, .invoke c ∈ as → digest c.body = digest buf.toBuffer → c.body = buf.toBuffer)
    {missing : CapturedEvents.BlobRef → String} (hblobs : w.blobs = some (get b missing s.shared)) :
    Dispatchers.fetchBody w ((HttpBody.finalizeBody buf opts).body.map replayed) =
      .ok (HttpBody.finalizeBody buf opts).stored := by
  unfold HttpBody.finalizeBody
  split_ifs with hempty
  · rfl
  · simp only
    split_ifs with hfit
    · rfl
    · cases hup : opts.uploader with
      | none => rfl
      | some up =>
        cases hanswer : up buf.toBuffer opts.contentType with
        | error err =>
          simp only [hanswer]
          rfl
        | ok ref =>
          obtain ⟨hmem,hspared⟩ := hupload up ref hup hanswer
          obtain ⟨-,c,hc,hdigest,hget⟩ := uploads_resolve h hmem hspared
          rw [hcollision c hc hdigest] at hget
          simp only [hanswer,Option.map_some,Dispatchers.fetchBody,replayed,hblobs,HttpBody.FinalizeResult.stored,
            Option.getD_some]
          exact hget missing

end Runs

/-- Two uploads of one body, of which the first is stored but not answered, and something that a client of its own
stores under another name. -/
def uploads : List Action :=
  [.invoke (.uploadBlob (some "sess_1") [0x68,0x69] none),.invoke (.uploadBlob (some "sess_1") [0x68,0x69] none),
    .invoke (.other ⟨"sess_1","../x",1,""⟩ [0]),.advance 0 {},.advance 0 {},.advance 2 {},.advance 2 {},.advance 0 {},
    .advance 0 { thrown := some "ECONNRESET", lands := true },.advance 1 {},.advance 0 {},.advance 0 {},.advance 0 {}]

/-- The environment of a replay that reads the bucket. -/
def replayWorld (objects : Objects) : Dispatchers.World where
  blobs := some (get "bodies" (fun _ => "NoSuchKey") objects)
  mutate payload _ _ := .ok payload
  newRequest _ _ := none
  applyAuth := .ok
  exchange _ := .ok ⟨200,0⟩
  elapsedNs := 0
  openClient _ _ := none
  client := false
  emitEvent _ _ _ := (0,none)

def Reply.uploads (data : Bytes) : Reply → Bool
  | .uploaded data' _ => data' = data
  | _ => false

theorem spared_uploads {ref : BlobRef} {data : Bytes} (h : Named ref.key data) : Spared ref uploads := by
  intro req data' hmem hkey
  simp only [uploads,List.mem_cons,Act.invoke.injEq,Call.other.injEq,reduceCtorEq,false_or,or_false,
    List.not_mem_nil] at hmem
  obtain ⟨rfl,-⟩ := hmem
  have hbase : LexicalPath.base (blobKey "sess_1" "../x").toList = ['x'] := by decide +kernel
  have hx : (digest data).toList = ['x'] := by rw [← h,← hkey,hbase]
  simpa [digest] using congrArg List.length hx

theorem captured_body_replays_uploads : ∃ s : State, ∃ ref, exec (step (some "bodies")) init uploads = some s ∧
    .uploaded [0x68,0x69] ref ∈ s.replies ∧
    Dispatchers.fetchBody (replayWorld s.shared) ((HttpBody.finalizeBody (HttpBody.bufferOf 8 [[0x68],[0x69]])
      ⟨1,none,some fun _ _ => .ok ref⟩).body.map replayed) = .ok [0x68,0x69] := by
  have hreplies : (exec (step (some "bodies")) init uploads).any
      (fun s => s.replies.any (Reply.uploads [0x68,0x69])) = true := by decide +kernel
  obtain ⟨s,hs,hreply⟩ := (Option.any_eq_true _ _).mp hreplies
  obtain ⟨v,hv,huploads⟩ := List.any_eq_true.mp hreply
  cases v with
  | uploaded data ref =>
    obtain rfl := of_decide_eq_true huploads
    obtain ⟨-,-,hnamed,-⟩ := (sound_run (K := fun _ => False) (.of_exec_true hs) (by simp)).2 _ hv
    have hcollision : digest [0] ≠ digest [0x68,0x69] := by decide +kernel
    refine ⟨s,ref,hs,hv,captured_body_replays (.of_exec_true hs) ?_ ?_ rfl⟩
    · rintro up ref' ⟨⟩ ⟨⟩
      exact ⟨hv,spared_uploads hnamed⟩
    · intro c hc hdigest
      simp only [uploads,List.mem_cons,Act.invoke.injEq,reduceCtorEq,or_false,List.not_mem_nil] at hc
      rcases hc with rfl | rfl | rfl
      · rfl
      · rfl
      · exact absurd hdigest hcollision
  | thrown text => cases huploads
  | refused status => cases huploads
  | closed => cases huploads

end BlobStore
end Clearvoiance
