import AudioFlinger.Remote.IAudioFlinger
import AudioFlinger.Remote.IAudioTrack
import Mathlib

/-!
# A remote call is the direct call

`seen` is the call that the object gets: the stub has no NULL to give, so a NULL pointer comes as a
pointer to the default that the proxy sends, and an empty command as NULL.
-/

namespace AudioFlinger.Remote

/-! ## Readers -/

@[simp]
theorem readInt32_int32 (v : Word) (p : Parcel) : readInt32 (.int32 v :: p) = (v, p) := rfl

@[simp]
theorem readInt64_int64 (v : BitVec 64) (p : Parcel) : readInt64 (.int64 v :: p) = (v, p) := rfl

@[simp]
theorem readFloat_float (v : Word) (p : Parcel) : readFloat (.float v :: p) = (v, p) := rfl

@[simp]
theorem readString8_string8 (s : Bytes) (p : Parcel) : readString8 (.string8 s :: p) = (s, p) := rfl

@[simp]
theorem readCString_cString (s : Bytes) (p : Parcel) : readCString (.cString s :: p) = (s, p) := rfl

@[simp]
theorem readStrongBinder_binder (b : Binder) (p : Parcel) : readStrongBinder (.binder b :: p) = (b, p) := rfl

@[simp]
theorem readRaw_raw (data : Bytes) (p : Parcel) : readRaw (.raw data :: p) = (data, p) := rfl

@[simp]
theorem map_readRaw_raw {α : Type} (f : Bytes → α) (data : Bytes) (p : Parcel) :
    (f <$> readRaw) (.raw data :: p) = (f data, p) := rfl

@[simp]
theorem readBool_bool (b : Bool) (p : Parcel) : readBool (.bool b :: p) = (b, p) := by
  cases b <;> rfl

@[simp]
theorem checkInterface_token (name : String) (p : Parcel) :
    checkInterface name (.token name :: p) = some p := by
  simp [checkInterface]

/-! ## Contracts -/

/-- What is promised about an interface. -/
structure Contract extends Interface where
  seen : Call → Call
  /-- The calls that the promise is about. -/
  Covered : Call → Prop
  /-- The calls that the proxy answers BAD_VALUE by itself. -/
  Refused : Call → Prop
  /-- Whether the object kept to the sizes that it was offered. -/
  Behaved : (c : Call) → (shape c).Answer → Prop
  /-- Whether the caller can count on the contents of its pointers. -/
  Contents : (c : Call) → (shape (seen c)).Answer → Prop

namespace Contract

variable (K : Contract)

/-- The answer of the object to the call as it sees it. -/
def answered {σ : Type} (object : K.Object σ) (c : K.Call) (s : σ) : (K.shape (K.seen c)).Answer × σ :=
  object (K.seen c) s

/-- The request carries the call to the object, and the reply carries the answer back. -/
structure Carries : Prop where
  refused : ∀ c, K.Covered c → K.Refused c → K.request c = .inl ⟨some (.int32 BAD_VALUE), none, [none]⟩
  arguments : ∀ c, K.Covered c → ¬ K.Refused c →
    ∃ r, K.request c = .inr r ∧ K.arguments r.1 r.2 = some (K.seen c)
  result : ∀ c, K.Covered c → ¬ K.Refused c → ∀ a, K.Behaved (K.seen c) a →
    (K.result c (K.reply (K.seen c) a)).Agrees (K.given c a) (K.Contents c a)

variable {K} {σ : Type}

theorem Carries.remote_of_refused (h : K.Carries) (object : K.Object σ) {c : K.Call} (s : σ)
    (hc : K.Covered c) (hr : K.Refused c) :
    K.remote object c s = some (⟨some (.int32 BAD_VALUE), none, [none]⟩, s) := by
  simp [Interface.remote, h.refused c hc hr]

theorem Carries.remote_of_not_refused (h : K.Carries) (object : K.Object σ) {c : K.Call} (s : σ)
    (hc : K.Covered c) (hr : ¬ K.Refused c) (hb : K.Behaved (K.seen c) (K.answered object c s).1) :
    ∃ o, K.remote object c s = some (o, (K.answered object c s).2) ∧
      o.Agrees (K.given c (K.answered object c s).1) (K.Contents c (K.answered object c s).1) := by
  obtain ⟨r, hreq, harg⟩ := h.arguments c hc hr
  refine ⟨_, ?_, h.result c hc hr _ hb⟩
  simp [Interface.remote, hreq, harg, answered]

/-- Where the object sees the call as it is, this is the call in its own process. -/
theorem answered_eq_direct (object : K.Object σ) {c : K.Call} (s : σ) (hseen : K.seen c = c) :
    (K.given c (K.answered object c s).1, (K.answered object c s).2) = K.direct object c s := by
  have h : ∀ d, d = c → (K.given c (object d s).1, (object d s).2) = K.direct object c s := by
    rintro _ rfl
    rfl
  exact h _ hseen

end Contract

/-! ## IAudioFlinger -/

namespace IAudioFlinger

def seen : Call → Call
  | .createTrack streamType sampleRate format channelMask frameCount flags sharedBuffer output tid sessionId _ =>
    .createTrack streamType sampleRate format channelMask frameCount (some (flags.getD TRACK_DEFAULT))
      sharedBuffer output tid (some (sessionId.getD 0#32)) true
  | .openRecord input sampleRate format channelMask frameCount flags tid sessionId _ =>
    .openRecord input sampleRate format channelMask frameCount flags tid (some (sessionId.getD 0#32)) true
  | .openOutput module pDevices pSamplingRate pFormat pChannelMask pLatencyMs flags =>
    .openOutput module (some (pDevices.getD 0#32)) (some (pSamplingRate.getD 0#32))
      (some (pFormat.getD AUDIO_FORMAT_DEFAULT)) (some (pChannelMask.getD 0#32))
      (some (pLatencyMs.getD 0#32)) flags
  | .openInput module pDevices pSamplingRate pFormat pChannelMask =>
    .openInput module (some (pDevices.getD 0#32)) (some (pSamplingRate.getD 0#32))
      (some (pFormat.getD AUDIO_FORMAT_DEFAULT)) (some (pChannelMask.getD 0#32))
  | .getRenderPosition _ _ output => .getRenderPosition true true output
  | .queryNumberEffects _ => .queryNumberEffects true
  | .createEffect pDesc client priority output sessionId _ _ _ =>
    .createEffect pDesc client priority output sessionId true true true
  | c => c

/-- Every call but `createEffect` without a descriptor. -/
def Covered : Call → Prop
  | .createEffect pDesc .. => pDesc ≠ none
  | _ => True

/-- `queryEffect` and `getEffectDescriptor` with a NULL pointer. -/
def Refused : Call → Prop
  | .queryEffect _ pDescriptor => pDescriptor = false
  | .getEffectDescriptor pUuid pDescriptor => pUuid = none ∨ pDescriptor = false
  | _ => False

end IAudioFlinger

def audioFlingerContract : Contract where
  toInterface := iAudioFlinger
  seen := IAudioFlinger.seen
  Covered := IAudioFlinger.Covered
  Refused := IAudioFlinger.Refused
  Behaved _ _ := True
  Contents c a := (IAudioFlinger.shape (IAudioFlinger.seen c)).status a = NO_ERROR

theorem agrees_flag (b : Bool) (contents : Prop) :
    Outcome.Agrees ⟨some (.bool (readBool [.bool b]).1), none, []⟩ ⟨some (.bool b), none, []⟩ contents := by
  constructor <;> simp

namespace IAudioFlinger

attribute [local simp] request arguments result reply

theorem request_of_refused {c : Call} (hr : Refused c) :
    request c = .inl ⟨some (.int32 BAD_VALUE), none, [none]⟩ := by
  cases c with
  | queryEffect index pDescriptor =>
    have hd : pDescriptor = false := hr
    simp [request, hd]
  | getEffectDescriptor pUuid pDescriptor =>
    have hd : pUuid = none ∨ pDescriptor = false := hr
    cases pUuid <;> cases pDescriptor <;> simp_all [request]
  | _ => exact hr.elim

/-- One request layout at a time: what the proxy writes is what the stub reads. -/
theorem arguments_request {c : Call} (hc : Covered c) (hr : ¬ Refused c) :
    ∃ r, request c = .inr r ∧ iAudioFlinger.arguments r.1 r.2 = some (seen c) := by
  cases c with
  | queryEffect index pDescriptor =>
    have hd : pDescriptor = true := by simpa [Refused] using hr
    simp [request, hd, iAudioFlinger, arguments, seen, StateT.bind, bind, pure, StateT.pure]
  | getEffectDescriptor pUuid pDescriptor =>
    obtain ⟨hu, rfl⟩ : pUuid ≠ none ∧ pDescriptor = true := by simpa [Refused] using hr
    obtain ⟨uuid, rfl⟩ := Option.ne_none_iff_exists'.1 hu
    simp [request, iAudioFlinger, arguments, seen, bind, StateT.bind, pure, StateT.pure]
  | createEffect pDesc client priority output sessionId status id enabled =>
    obtain ⟨desc, rfl⟩ := Option.ne_none_iff_exists'.1 hc
    simp [request, iAudioFlinger, arguments, seen, bind, StateT.bind, pure, StateT.pure]
  | _ =>
    refine ⟨_, rfl, ?_⟩
    simp only [iAudioFlinger, checkInterface_token, Option.map_some]
    -- read the values one after another, as they were written
    simp only [arguments, seen, bind, StateT.bind, pure, StateT.pure, readInt32_int32,
      readFloat_float, readString8_string8, readCString_cString, readStrongBinder_binder,
      readBool_bool]

/-! The contents follow the status only if it is NO_ERROR. -/

theorem getRenderPosition_result (halFrames dspFrames : Bool) (output : Word) (a : PositionAnswer) :
    (iAudioFlinger.result (.getRenderPosition halFrames dspFrames output)
      (reply (.getRenderPosition true true output) a)).Agrees
      ⟨some (.int32 a.status), none, [out halFrames (.int32 a.halFrames), out dspFrames (.int32 a.dspFrames)]⟩
      (a.status = NO_ERROR) := by
  by_cases h : a.status = NO_ERROR <;> constructor <;>
    simp [iAudioFlinger, result, reply, h, bind, StateT.bind, pure, StateT.pure]

theorem queryNumberEffects_result (numEffects : Bool) (a : CountAnswer) :
    (iAudioFlinger.result (.queryNumberEffects numEffects) (reply (.queryNumberEffects true) a)).Agrees
      ⟨some (.int32 a.status), none, [out numEffects (.int32 a.numEffects)]⟩ (a.status = NO_ERROR) := by
  by_cases h : a.status = NO_ERROR <;> cases numEffects <;> constructor <;>
    simp [iAudioFlinger, result, reply, h, out, bind, StateT.bind, pure, StateT.pure]

theorem queryEffect_result (index : Word) (a : DescriptorAnswer) :
    (iAudioFlinger.result (.queryEffect index true) (reply (.queryEffect index true) a)).Agrees
      ⟨some (.int32 a.status), none, [some (.raw a.descriptor)]⟩ (a.status = NO_ERROR) := by
  by_cases h : a.status = NO_ERROR <;> constructor <;>
    simp [iAudioFlinger, result, reply, h, bind, StateT.bind, pure, StateT.pure]

theorem getEffectDescriptor_result (uuid : Bytes) (a : DescriptorAnswer) :
    (iAudioFlinger.result (.getEffectDescriptor (some uuid) true)
      (reply (.getEffectDescriptor (some uuid) true) a)).Agrees
      ⟨some (.int32 a.status), none, [some (.raw a.descriptor)]⟩ (a.status = NO_ERROR) := by
  by_cases h : a.status = NO_ERROR <;> constructor <;>
    simp [iAudioFlinger, result, reply, h, bind, StateT.bind, pure, StateT.pure]

/-- One reply layout at a time: what the stub writes is what the proxy reads. -/
theorem result_reply {c : Call} (hc : Covered c) (hr : ¬ Refused c) (a : (shape (seen c)).Answer) :
    (iAudioFlinger.result c (reply (seen c) a)).Agrees (iAudioFlinger.given c a)
      ((shape (seen c)).status a = NO_ERROR) := by
  cases c with
  | masterMute => exact agrees_flag a _
  | streamMute stream => exact agrees_flag a _
  | getMicMute => exact agrees_flag a _
  | getRenderPosition halFrames dspFrames output => exact getRenderPosition_result halFrames dspFrames output a
  | queryNumberEffects numEffects => exact queryNumberEffects_result numEffects a
  | queryEffect index pDescriptor =>
    obtain rfl : pDescriptor = true := by simpa [Refused] using hr
    exact queryEffect_result index a
  | getEffectDescriptor pUuid pDescriptor =>
    obtain ⟨hu, rfl⟩ : pUuid ≠ none ∧ pDescriptor = true := by simpa [Refused] using hr
    obtain ⟨uuid, rfl⟩ := Option.ne_none_iff_exists'.1 hu
    exact getEffectDescriptor_result uuid a
  | createEffect pDesc client priority output sessionId status id enabled =>
    obtain ⟨desc, rfl⟩ := Option.ne_none_iff_exists'.1 hc
    exact ⟨rfl, rfl, fun _ => rfl⟩
  | _ => exact ⟨rfl, rfl, fun _ => rfl⟩

theorem carries : audioFlingerContract.Carries where
  refused _ _ hr := request_of_refused hr
  arguments _ hc hr := arguments_request hc hr
  result _ hc hr a _ := result_reply hc hr a

end IAudioFlinger

/-! ## IAudioTrack -/

def audioTrackContract : Contract where
  toInterface := iAudioTrack
  seen c := c
  Covered _ := True
  Refused _ := False
  Behaved _ _ := True
  Contents c a := (IAudioTrack.shape c).status a = NO_ERROR

namespace IAudioTrack

theorem arguments_request (c : Call) :
    ∃ r, request c = .inr r ∧ iAudioTrack.arguments r.1 r.2 = some c := by
  cases c <;> simp [request, iAudioTrack, arguments, bind, StateT.bind, pure, StateT.pure]

theorem allocateTimedBuffer_result (size : Word) (a : BufferAnswer) :
    (iAudioTrack.result (.allocateTimedBuffer size) (reply (.allocateTimedBuffer size) a)).Agrees
      ⟨some (.int32 a.status), none, [some (.binder a.buffer)]⟩ (a.status = NO_ERROR) := by
  by_cases h : a.status = NO_ERROR <;> constructor <;>
    simp [iAudioTrack, result, reply, h, bind, StateT.bind, pure, StateT.pure]

theorem result_reply (c : Call) (a : (shape c).Answer) :
    (iAudioTrack.result c (reply c a)).Agrees (iAudioTrack.given c a) ((shape c).status a = NO_ERROR) := by
  cases c with
  | allocateTimedBuffer size => exact allocateTimedBuffer_result size a
  | _ => exact ⟨rfl, rfl, fun _ => rfl⟩

theorem carries : audioTrackContract.Carries where
  refused _ _ hr := hr.elim
  arguments c _ _ := arguments_request c
  result c _ _ a _ := result_reply c a

end IAudioTrack

/-! ## IEffect -/

namespace IEffect

/-- A command without data or without a size has neither, and a buffer comes with the room for a reply. -/
def seen : Call → Call
  | .command cmdCode cmdSize pCmdData pReplySize _ =>
    let size := if pCmdData = none then 0#32 else cmdSize
    let offered := pReplySize.getD 0#32
    .command cmdCode size (if size = 0#32 then none else pCmdData) (some offered) (offered ≠ 0#32)
  | c => c

/-- No more reply bytes than the room that was offered. -/
def Behaved : (c : Call) → (shape c).Answer → Prop
  | .command _ _ _ pReplySize _, a => CommandAnswer.replySize a ≤ pReplySize.getD 0#32
  | _, _ => True

/-- After `command` there is something in the pointers if the reply is not empty and has a place. -/
def Contents : (c : Call) → (shape (seen c)).Answer → Prop
  | .command _ _ _ pReplySize pReplyData, a => CommandAnswer.status a = NO_ERROR ∧
      CommandAnswer.replySize a ≠ 0#32 ∧ pReplySize ≠ none ∧ pReplyData
  | _, _ => True

end IEffect

def effectContract : Contract where
  toInterface := iEffect
  seen := IEffect.seen
  Covered _ := True
  Refused _ := False
  Behaved := IEffect.Behaved
  Contents := IEffect.Contents

namespace IEffect

theorem command_arguments (cmdCode cmdSize : Word) (pCmdData : Option Bytes) (pReplySize : Option Word)
    (pReplyData : Bool) :
    ∃ r, request (.command cmdCode cmdSize pCmdData pReplySize pReplyData) = .inr r ∧
      iEffect.arguments r.1 r.2 = some (seen (.command cmdCode cmdSize pCmdData pReplySize pReplyData)) := by
  cases pCmdData with
  | none => simp [request, iEffect, arguments, seen, bind, StateT.bind, pure, StateT.pure]
  | some cmd =>
    by_cases h : cmdSize = 0#32
    · simp [request, iEffect, arguments, seen, h, bind, StateT.bind, pure, StateT.pure]
    · simp [request, iEffect, arguments, seen, h, bind, StateT.bind, pure, StateT.pure]

theorem arguments_request (c : Call) :
    ∃ r, request c = .inr r ∧ iEffect.arguments r.1 r.2 = some (seen c) := by
  cases c with
  | command cmdCode cmdSize pCmdData pReplySize pReplyData => exact command_arguments _ _ _ _ _
  | _ => exact ⟨_, rfl, rfl⟩

/-- The reply of an object that kept to the room it was offered. -/
theorem reply_command (cmdCode size : Word) (cmd : Option Bytes) (offered : Word) (room : Bool)
    (a : CommandAnswer) (ha : a.replySize ≤ offered) :
    reply (.command cmdCode size cmd (some offered) room) a = [.int32 a.status, .int32 a.replySize] ++
      if a.replySize ≠ 0#32 then [.raw a.reply] else [] := by
  have hsize : (if a.replySize < offered then a.replySize else offered) = a.replySize := by
    split_ifs with h
    · rfl
    · exact BitVec.le_antisymm (BitVec.not_lt.1 h) ha
  have htake : a.reply.take a.replySize.toNat = a.reply := by rw [← a.reply_length, List.take_length]
  simp [reply, hsize, htake]

theorem command_result (cmdCode cmdSize size : Word) (pCmdData cmd : Option Bytes) (pReplySize : Option Word)
    (pReplyData : Bool) (a : CommandAnswer) (ha : a.replySize ≤ pReplySize.getD 0#32) :
    (iEffect.result (.command cmdCode cmdSize pCmdData pReplySize pReplyData)
      (reply (.command cmdCode size cmd (some (pReplySize.getD 0#32)) (pReplySize.getD 0#32 ≠ 0#32)) a)).Agrees
      ⟨some (.int32 a.status), none, [out pReplySize.isSome (.int32 a.replySize), out pReplyData (.raw a.reply)]⟩
      (a.status = NO_ERROR ∧ a.replySize ≠ 0#32 ∧ pReplySize ≠ none ∧ pReplyData) := by
  rw [reply_command cmdCode size cmd _ _ a ha]
  by_cases h : a.replySize ≠ 0#32 ∧ pReplyData ∧ pReplySize.isSome
  · obtain ⟨hsize, hdata, hreply⟩ := h
    constructor <;> simp [iEffect, result, hsize, hdata, hreply, out, bind, StateT.bind, pure, StateT.pure]
  · constructor
    · simp [iEffect, result, h, bind, StateT.bind, pure, StateT.pure]
    · simp [iEffect, result, h, bind, StateT.bind, pure, StateT.pure]
    · rintro ⟨-, hsize, hreply, hdata⟩
      exact absurd ⟨hsize, hdata, Option.isSome_iff_ne_none.2 hreply⟩ h

theorem result_reply (c : Call) (a : (shape (seen c)).Answer) (ha : Behaved (seen c) a) :
    (iEffect.result c (reply (seen c) a)).Agrees (iEffect.given c a) (Contents c a) := by
  cases c with
  | command cmdCode cmdSize pCmdData pReplySize pReplyData => exact command_result _ _ _ _ _ _ _ a ha
  | _ => exact ⟨rfl, rfl, fun _ => rfl⟩

theorem carries : effectContract.Carries where
  refused _ _ hr := hr.elim
  arguments c _ _ := arguments_request c
  result c _ _ a ha := result_reply c a ha

end IEffect

/-! ## The three interfaces -/

inductive Service
  | audioFlinger
  | audioTrack
  | effect

def contract : Service → Contract
  | .audioFlinger => audioFlingerContract
  | .audioTrack => audioTrackContract
  | .effect => effectContract

theorem contract_carries (m : Service) : (contract m).Carries := by
  cases m with
  | audioFlinger => exact IAudioFlinger.carries
  | audioTrack => exact IAudioTrack.carries
  | effect => exact IEffect.carries

/-- A call is refused by the proxy, or the object sees it with the defaults in the place of NULL
pointers, and the caller gets what the object answers. -/
theorem remote_agrees {σ : Type} (m : Service) (object : (contract m).Object σ) (c : (contract m).Call) (s : σ)
    (hc : (contract m).Covered c)
    (hb : (contract m).Behaved ((contract m).seen c) ((contract m).answered object c s).1) :
    ((contract m).Refused c →
      (contract m).remote object c s = some (⟨some (.int32 BAD_VALUE), none, [none]⟩, s)) ∧
    (¬ (contract m).Refused c →
      ∃ o, (contract m).remote object c s = some (o, ((contract m).answered object c s).2) ∧
        o.Agrees ((contract m).given c ((contract m).answered object c s).1)
          ((contract m).Contents c ((contract m).answered object c s).1)) ∧
    ((contract m).seen c = c →
      ((contract m).given c ((contract m).answered object c s).1, ((contract m).answered object c s).2) =
        (contract m).direct object c s) :=
  ⟨(contract_carries m).remote_of_refused object s hc,
    fun hr => (contract_carries m).remote_of_not_refused object s hc hr hb,
    Contract.answered_eq_direct object s⟩

/-! A reverb that reports two of the four bytes it was offered. -/

def reverb : iEffect.Object ℕ := fun c s => match c with
  | .enable => (NO_ERROR, s)
  | .disable => (NO_ERROR, s)
  | .command .. => (CommandAnswer.mk NO_ERROR 2#32 [1#8, 2#8] rfl, s + 1)
  | .disconnect => ((), s)
  | .getCblk => (some 7, s)

theorem remote_agrees_reverb :
    ∃ o, iEffect.remote reverb (.command 5#32 1#32 (some [9#8]) (some 4#32) true) 0 = some (o, 1) ∧
      o.outs = [some (.int32 2#32), some (.raw [1#8, 2#8])] := by
  obtain ⟨-, h, -⟩ := remote_agrees .effect reverb (.command 5#32 1#32 (some [9#8]) (some 4#32) true) 0 trivial
    (show 2#32 ≤ 4#32 by decide)
  obtain ⟨o, ho, ha⟩ := h id
  exact ⟨o, ho, ha.outs ⟨rfl, by decide, by decide, rfl⟩⟩

/-! A thread that checks the pointers for NULL, as `PlaybackThread::getRenderPosition` does. -/

def zero : (k : Shape) → k.Answer
  | .nothing => ()
  | .word => 0#32
  | .float => 0#32
  | .flag => false
  | .string => []
  | .binder => none
  | .track => TrackAnswer.mk none 0#32 0#32 0#32
  | .record => RecordAnswer.mk none 0#32 0#32
  | .output => OutputAnswer.mk ⟨0#32, 0#32, 0#32, 0#32, 0#32⟩ 0#32
  | .input => InputAnswer.mk 0#32 0#32 0#32 0#32 0#32
  | .position => PositionAnswer.mk 0#32 0#32 0#32
  | .count => CountAnswer.mk 0#32 0#32
  | .descriptor => DescriptorAnswer.mk 0#32 []
  | .effect => EffectAnswer.mk none 0#32 0#32 0#32 []
  | .timedBuffer => BufferAnswer.mk 0#32 none
  | .command => CommandAnswer.mk 0#32 0#32 [] rfl

def renderer : iAudioFlinger.Object Unit := fun c s => match c with
  | .getRenderPosition halFrames dspFrames _ =>
    (PositionAnswer.mk (if halFrames && dspFrames then NO_ERROR else BAD_VALUE) 0#32 0#32, s)
  | c => (zero (IAudioFlinger.shape c), s)

theorem direct_ne_remote_null :
    (iAudioFlinger.remote renderer (.getRenderPosition false true 1#32) ()).map (·.1.ret) ≠
      some (iAudioFlinger.direct renderer (.getRenderPosition false true 1#32) ()).1.ret := by
  decide

end AudioFlinger.Remote
