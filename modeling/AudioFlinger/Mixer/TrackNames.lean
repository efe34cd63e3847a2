import Mathlib.Data.Finset.Image
import Mathlib.Data.Fintype.Basic
import AudioFlinger.Foundation.Machine
import AudioFlinger.Mixer.TrackSets

/-!
# Track names

A mixer names its tracks by the bits of a word. A track of more than two
channels needs a downmixer, an effect of a library whose replies are a
parameter of the call.
-/

set_option linter.style.nameCheck false

namespace AudioFlinger.Mixer.TrackNames

open Foundation Machine

def MAX_NUM_CHANNELS : ℕ := 2

def TRACK0 : ℤ := 0x1000

def AUDIO_CHANNEL_OUT_STEREO : U32 := 0x3#32

def AUDIO_FORMAT_PCM_16_BIT : U32 := 0x1#32

def EFFECT_CONFIG_SMP_RATE : U32 := 0x2#32

def EFFECT_CONFIG_CHANNELS : U32 := 0x4#32

def EFFECT_CONFIG_FORMAT : U32 := 0x8#32

def EFFECT_CONFIG_ACC_MODE : U32 := 0x10#32

def NO_INIT : I32 := -19#32

/-! ## Downmixers -/

inductive AccessMode
  | EFFECT_BUFFER_ACCESS_WRITE
  | EFFECT_BUFFER_ACCESS_READ
  | EFFECT_BUFFER_ACCESS_ACCUMULATE
  deriving DecidableEq, Repr

/-- `buffer_config_t`. -/
structure BufferConfig where
  samplingRate : U32
  channels : U32
  format : U32
  accessMode : AccessMode
  mask : U32
  deriving DecidableEq, Repr

/-- `effect_config_t`. -/
structure EffectConfig where
  inputCfg : BufferConfig
  outputCfg : BufferConfig
  deriving DecidableEq, Repr

inductive DownmixType
  | DOWNMIX_TYPE_STRIP
  | DOWNMIX_TYPE_FOLD
  deriving DecidableEq, Repr

inductive EffectCommand
  | EFFECT_CMD_SET_CONFIG (config : EffectConfig)
  | EFFECT_CMD_ENABLE
  | EFFECT_CMD_SET_PARAM (downmixType : DownmixType)
  deriving DecidableEq, Repr

/-- What the effect library answers in a call: the status of each function, and the `cmdStatus` a
command replies with. -/
structure Replies where
  EffectCreate : I32 → I32
  command : EffectCommand → I32 × I32

/-- `DownmixerBufferProvider`. -/
structure Downmixer (β : Type) where
  mDownmixConfig : EffectConfig
  mTrackBufferProvider : Option β

inductive BufferProvider
  | track (id : ℕ)
  | downmixer (d : Downmixer BufferProvider)

/-! ## State -/

/-- `track_t`, with pointers as numbers. -/
structure Track where
  needs : U32
  volume : I16 × I16
  volumeInc : I32 × I32
  auxLevel : I16
  auxInc : I32
  channelCount : ℕ
  enabled : Bool
  format : ℕ
  channelMask : U32
  sessionId : I32
  bufferProvider : Option BufferProvider
  buffer : Option ℕ
  hook : Option Hook
  input : Option ℕ
  resampler : Option ℕ
  sampleRate : U32
  mainBuffer : Option ℕ
  auxBuffer : Option ℕ
  downmixerBufferProvider : Option (Downmixer BufferProvider)

inductive ProcessHook
  | process__validate
  | process__nop
  | process__genericNoResampling
  | process__genericResampling
  | process__OneTrack16BitsStereoNoResampling
  deriving DecidableEq, Repr

structure AudioMixer where
  isMultichannelCapable : Bool
  mTrackNames : U32
  mConfiguredNames : U32
  mSampleRate : U32
  needsChanged : U32
  hook : ProcessHook
  tracks : Fin MAX_NUM_TRACKS → Track

/-- The constructor. It leaves most of the tracks `garbage` as it finds it. -/
def AudioMixer.new (sampleRate : U32) (maxNumTracks : ℕ) (isMultichannelCapable : Bool)
    (garbage : Fin MAX_NUM_TRACKS → Track) : AudioMixer where
  isMultichannelCapable := isMultichannelCapable
  mTrackNames := 0#32
  mConfiguredNames := (if 32 ≤ maxNumTracks then 0#32 else 1#32 <<< maxNumTracks) - 1#32
  mSampleRate := sampleRate
  needsChanged := 0#32
  hook := .process__nop
  tracks i := { garbage i with resampler := none, downmixerBufferProvider := none }

def AudioMixer.setTrack (m : AudioMixer) (i : Fin MAX_NUM_TRACKS) (t : Track) : AudioMixer :=
  { m with tracks := Function.update m.tracks i t }

def AudioMixer.invalidateState (m : AudioMixer) (mask : U32) : AudioMixer :=
  if mask = 0#32 then m
  else { m with needsChanged := m.needsChanged ||| mask, hook := .process__validate }

/-! ## Downmix preparation -/

def Track.unprepareTrackForDownmix (t : Track) : Track :=
  match t.downmixerBufferProvider with
  | some d => { t with bufferProvider := d.mTrackBufferProvider, downmixerBufferProvider := none }
  | none => t

/-- The configuration of a downmixer of channels `mask`. -/
def downmixConfig (mask sampleRate : U32) : EffectConfig :=
  let cfg (channels : U32) (accessMode : AccessMode) : BufferConfig :=
    { samplingRate := sampleRate
      channels := channels
      format := AUDIO_FORMAT_PCM_16_BIT
      accessMode := accessMode
      mask := EFFECT_CONFIG_SMP_RATE ||| EFFECT_CONFIG_CHANNELS ||| EFFECT_CONFIG_FORMAT |||
        EFFECT_CONFIG_ACC_MODE }
  { inputCfg := cfg mask .EFFECT_BUFFER_ACCESS_READ
    outputCfg := cfg AUDIO_CHANNEL_OUT_STEREO .EFFECT_BUFFER_ACCESS_WRITE }

/-- Returns `NO_ERROR` or `NO_INIT`. -/
def Track.prepareTrackForDownmix (t : Track) (isMultichannelCapable : Bool) (replies : Replies) :
    Track × I32 :=
  let t := t.unprepareTrackForDownmix
  let config := downmixConfig t.channelMask t.sampleRate
  let noDownmixForActiveTrack := ({ t with downmixerBufferProvider := none }, NO_INIT)
  if isMultichannelCapable = false then noDownmixForActiveTrack
  else if replies.EffectCreate t.sessionId ≠ 0#32 then noDownmixForActiveTrack
  else if replies.command (.EFFECT_CMD_SET_CONFIG config) ≠ (0#32, 0#32) then
    noDownmixForActiveTrack
  else if replies.command .EFFECT_CMD_ENABLE ≠ (0#32, 0#32) then noDownmixForActiveTrack
  else if replies.command (.EFFECT_CMD_SET_PARAM .DOWNMIX_TYPE_FOLD) ≠ (0#32, 0#32) then
    noDownmixForActiveTrack
  else
    let d : Downmixer BufferProvider := ⟨config, t.bufferProvider⟩
    ({ t with downmixerBufferProvider := some d, bufferProvider := some (.downmixer d) }, 0#32)

def Track.initTrackDownmix (t : Track) (isMultichannelCapable : Bool) (mask : U32)
    (replies : Replies) : Track × I32 :=
  let channelCount := mask.cpop.toNat
  if MAX_NUM_CHANNELS < channelCount then
    { t with channelMask := mask, channelCount := channelCount }.prepareTrackForDownmix
      isMultichannelCapable replies
  else (t.unprepareTrackForDownmix, 0#32)

/-! ## Names -/

def AudioMixer.freeNames (m : AudioMixer) : U32 := ~~~m.mTrackNames &&& m.mConfiguredNames

/-- `__builtin_ctz(names)`, for `names ≠ 0`. -/
def bottomTrack (names : U32) : Fin MAX_NUM_TRACKS := Fin.ofNat MAX_NUM_TRACKS names.ctz.toNat

/-- The default parameters of a track. -/
def Track.defaults (t : Track) (sessionId : I32) (sampleRate : U32) : Track :=
  { t with
    needs := 0#32
    volume := (UNITY_GAIN, UNITY_GAIN)
    volumeInc := (0#32, 0#32)
    auxLevel := 0#16
    auxInc := 0#32
    channelCount := 2
    enabled := false
    format := 16
    channelMask := AUDIO_CHANNEL_OUT_STEREO
    sessionId := sessionId
    bufferProvider := none
    buffer := none
    hook := none
    input := none
    resampler := none
    sampleRate := sampleRate
    mainBuffer := none
    auxBuffer := none
    downmixerBufferProvider := none }

def AudioMixer.getTrackName (m : AudioMixer) (channelMask : U32) (sessionId : I32)
    (replies : Replies) : AudioMixer × ℤ :=
  let names := m.freeNames
  if names ≠ 0#32 then
    let n := bottomTrack names
    let (t, status) := ((m.tracks n).defaults sessionId m.mSampleRate).initTrackDownmix
      m.isMultichannelCapable channelMask replies
    let m := { m with mTrackNames := m.mTrackNames ||| bit n }.setTrack n t
    if status = 0#32 then (m, TRACK0 + n.val) else (m, -1)
  else (m, -1)

/-- The track of a name. -/
def trackOf (name : ℤ) : Fin MAX_NUM_TRACKS := Fin.ofNat MAX_NUM_TRACKS (name - TRACK0).toNat

def AudioMixer.deleteTrackName (m : AudioMixer) (name : ℤ) : AudioMixer :=
  let n := trackOf name
  let track := m.tracks n
  let m := if track.enabled then m.invalidateState (bit n) else m
  let track := { track with enabled := false, resampler := none }.unprepareTrackForDownmix
  { m.setTrack n track with mTrackNames := m.mTrackNames &&& ~~~bit n }

def AudioMixer.enable (m : AudioMixer) (name : ℤ) : AudioMixer :=
  let n := trackOf name
  if (m.tracks n).enabled then m
  else (m.setTrack n { m.tracks n with enabled := true }).invalidateState (bit n)

def AudioMixer.disable (m : AudioMixer) (name : ℤ) : AudioMixer :=
  let n := trackOf name
  if (m.tracks n).enabled then
    (m.setTrack n { m.tracks n with enabled := false }).invalidateState (bit n)
  else m

/-! ## Clients -/

/-- A mixer and the names its client holds. -/
structure Client where
  mixer : AudioMixer
  live : Finset ℤ

inductive Event
  | getTrackName (channelMask : U32) (sessionId : I32) (replies : Replies)
  | deleteTrackName (name : ℤ)
  | enable (name : ℤ)
  | disable (name : ℤ)

/-- A client uses the names it holds only. -/
def step (s : Client) : Event → Option Client
  | .getTrackName channelMask sessionId replies =>
    let (m, name) := s.mixer.getTrackName channelMask sessionId replies
    some ⟨m, if name = -1 then s.live else insert name s.live⟩
  | .deleteTrackName name =>
    if name ∈ s.live then some ⟨s.mixer.deleteTrackName name, s.live.erase name⟩ else none
  | .enable name => if name ∈ s.live then some { s with mixer := s.mixer.enable name } else none
  | .disable name => if name ∈ s.live then some { s with mixer := s.mixer.disable name } else none

/-- The name that an event returns. -/
def returned (s : Client) : Event → Option ℤ
  | .getTrackName channelMask sessionId replies =>
    some (s.mixer.getTrackName channelMask sessionId replies).2
  | _ => none

def Client.new (sampleRate : U32) (maxNumTracks : ℕ) (isMultichannelCapable : Bool)
    (garbage : Fin MAX_NUM_TRACKS → Track) : Client :=
  ⟨.new sampleRate maxNumTracks isMultichannelCapable garbage, ∅⟩

/-- The names of the bits set in a word. -/
def nameSet (w : U32) : Finset ℤ :=
  (Finset.univ.filter fun i : Fin MAX_NUM_TRACKS => w.getLsbD i.val).image fun i => TRACK0 + i.val

/-- The step allocates names: `mTrackNames` is the set of the live ones after it. -/
structure Allocates (s : Client) (e : Event) : Prop where
  names : ∀ s' ∈ step s e, s'.live = nameSet s'.mixer.mTrackNames
  fresh : ∀ name ∈ returned s e, name ≠ -1 → name ∉ s.live
  unchanged : -1 ∈ returned s e → ∀ s' ∈ step s e, s'.mixer.mTrackNames = s.mixer.mTrackNames
  exhausted : -1 ∈ returned s e → s.mixer.freeNames = 0#32 →
    nameSet s.mixer.mConfiguredNames ⊆ s.live

/-- The library prepares the downmixer of a track of channels `mask`. -/
structure Prepares (isMultichannelCapable : Bool) (sampleRate mask : U32) (sessionId : I32)
    (replies : Replies) : Prop where
  capable : isMultichannelCapable = true
  create : replies.EffectCreate sessionId = 0#32
  setConfig : replies.command (.EFFECT_CMD_SET_CONFIG (downmixConfig mask sampleRate)) = (0#32, 0#32)
  enable : replies.command .EFFECT_CMD_ENABLE = (0#32, 0#32)
  setParam : replies.command (.EFFECT_CMD_SET_PARAM .DOWNMIX_TYPE_FOLD) = (0#32, 0#32)

/-- A call that finds a free name gets the downmixer its track needs. -/
def Prepared (s : Client) : Event → Prop
  | .getTrackName mask sessionId replies => s.mixer.freeNames ≠ 0#32 →
      MAX_NUM_CHANNELS < mask.cpop.toNat →
        Prepares s.mixer.isMultichannelCapable s.mixer.mSampleRate mask sessionId replies
  | _ => True

/-! ## Words and names -/

theorem mem_nameSet {w : U32} {name : ℤ} :
    name ∈ nameSet w ↔ ∃ i : Fin MAX_NUM_TRACKS, w.getLsbD i = true ∧ TRACK0 + i.val = name := by
  simp [nameSet]

theorem name_mem_nameSet {w : U32} {i : Fin MAX_NUM_TRACKS} :
    TRACK0 + i.val ∈ nameSet w ↔ w.getLsbD i = true := by
  rw [mem_nameSet]
  constructor
  · rintro ⟨j, hj, hname⟩
    have hij : j = i := Fin.ext (by omega)
    rwa [← hij]
  · exact fun h => ⟨i, h, rfl⟩

theorem name_ne (i : Fin MAX_NUM_TRACKS) : TRACK0 + i.val ≠ -1 := by
  unfold TRACK0
  omega

@[simp] theorem trackOf_name (i : Fin MAX_NUM_TRACKS) : trackOf (TRACK0 + i.val) = i := by
  have hsub : (TRACK0 + i.val - TRACK0).toNat = i.val := by omega
  rw [trackOf, hsub]
  exact Fin.ofNat_val_eq_self i

theorem nameSet_set (w : U32) (i : Fin MAX_NUM_TRACKS) :
    nameSet (w ||| bit i) = insert (TRACK0 + i.val) (nameSet w) := by
  ext name
  simp only [mem_nameSet, Finset.mem_insert, BitVec.getLsbD_or, getLsbD_bit, Bool.or_eq_true,
    decide_eq_true_eq]
  constructor
  · rintro ⟨j, hj | rfl, rfl⟩
    · exact Or.inr ⟨j, hj, rfl⟩
    · exact Or.inl rfl
  · rintro (rfl | ⟨j, hj, rfl⟩)
    · exact ⟨i, Or.inr rfl, rfl⟩
    · exact ⟨j, Or.inl hj, rfl⟩

theorem nameSet_clear (w : U32) (i : Fin MAX_NUM_TRACKS) :
    nameSet (w &&& ~~~bit i) = (nameSet w).erase (TRACK0 + i.val) := by
  ext name
  simp only [mem_nameSet, Finset.mem_erase, getLsbD_clear, Bool.and_eq_true, decide_eq_true_eq]
  constructor
  · rintro ⟨j, ⟨hj, hne⟩, rfl⟩
    exact ⟨fun h => hne (Fin.ext (by omega)), j, hj, rfl⟩
  · rintro ⟨hne, j, hj, rfl⟩
    exact ⟨j, ⟨hj, fun h => hne (by rw [h])⟩, rfl⟩

theorem getLsbD_bottomTrack {names : U32} (h : names ≠ 0#32) :
    names.getLsbD (bottomTrack names) = true := by
  have hlt : names.ctz.toNat < MAX_NUM_TRACKS := BitVec.ctz_lt_iff_ne_zero.mpr h
  have hval : (bottomTrack names).val = names.ctz.toNat := Nat.mod_eq_of_lt hlt
  rw [hval]
  exact BitVec.getLsbD_true_ctz_of_ne_zero h

/-- The name taken is configured and was not. -/
theorem AudioMixer.bottomTrack_free {m : AudioMixer} (h : m.freeNames ≠ 0#32) :
    m.mTrackNames.getLsbD (bottomTrack m.freeNames) = false := by
  have hbit := getLsbD_bottomTrack h
  rw [AudioMixer.freeNames, BitVec.getLsbD_and, BitVec.getLsbD_not] at hbit
  simp only [Bool.and_eq_true, Bool.not_eq_true', decide_eq_true_eq] at hbit
  exact hbit.1.2

/-- No name is free only when all configured ones are set. -/
theorem AudioMixer.configured_subset {m : AudioMixer} (h : m.freeNames = 0#32) :
    nameSet m.mConfiguredNames ⊆ nameSet m.mTrackNames := by
  intro name hname
  obtain ⟨i, hi, rfl⟩ := mem_nameSet.mp hname
  have hlt : i.val < 32 := i.isLt
  have hbit : m.freeNames.getLsbD i = false := by rw [h, BitVec.getLsbD_zero]
  rw [AudioMixer.freeNames, BitVec.getLsbD_and, BitVec.getLsbD_not, hi] at hbit
  simp only [hlt, decide_true, Bool.true_and, Bool.and_true, Bool.not_eq_false'] at hbit
  exact name_mem_nameSet.mpr hbit

/-! ## What the calls do to the names -/

section Calls

variable (m : AudioMixer) (i : Fin MAX_NUM_TRACKS) (t : Track) (mask : U32)

@[simp] theorem AudioMixer.setTrack_mTrackNames : (m.setTrack i t).mTrackNames = m.mTrackNames := rfl

@[simp] theorem AudioMixer.invalidateState_mTrackNames :
    (m.invalidateState mask).mTrackNames = m.mTrackNames := by
  unfold AudioMixer.invalidateState
  split_ifs <;> rfl

theorem AudioMixer.deleteTrackName_mTrackNames (name : ℤ) :
    (m.deleteTrackName name).mTrackNames = m.mTrackNames &&& ~~~bit (trackOf name) := by
  simp only [AudioMixer.deleteTrackName]
  split_ifs <;> simp

theorem AudioMixer.enable_mTrackNames (name : ℤ) : (m.enable name).mTrackNames = m.mTrackNames := by
  simp only [AudioMixer.enable]
  split_ifs <;> simp

theorem AudioMixer.disable_mTrackNames (name : ℤ) :
    (m.disable name).mTrackNames = m.mTrackNames := by
  simp only [AudioMixer.disable]
  split_ifs <;> simp

end Calls

section Unprepare

variable (t : Track)

@[simp] theorem Track.unprepareTrackForDownmix_channelMask :
    t.unprepareTrackForDownmix.channelMask = t.channelMask := by
  unfold Track.unprepareTrackForDownmix
  split <;> rfl

@[simp] theorem Track.unprepareTrackForDownmix_sampleRate :
    t.unprepareTrackForDownmix.sampleRate = t.sampleRate := by
  unfold Track.unprepareTrackForDownmix
  split <;> rfl

@[simp] theorem Track.unprepareTrackForDownmix_sessionId :
    t.unprepareTrackForDownmix.sessionId = t.sessionId := by
  unfold Track.unprepareTrackForDownmix
  split <;> rfl

end Unprepare

variable {replies : Replies}

theorem Track.prepareTrackForDownmix_status (t : Track) (capable : Bool) :
    (t.prepareTrackForDownmix capable replies).2 = 0#32 ↔
      Prepares capable t.sampleRate t.channelMask t.sessionId replies := by
  have hfail : NO_INIT ≠ 0#32 := by decide
  simp only [Track.prepareTrackForDownmix, Track.unprepareTrackForDownmix_channelMask,
    Track.unprepareTrackForDownmix_sampleRate, Track.unprepareTrackForDownmix_sessionId]
  constructor
  · intro h
    split_ifs at h with hcapable hcreate hset henable hparam
    · exact absurd h hfail
    · exact absurd h hfail
    · exact absurd h hfail
    · exact absurd h hfail
    · exact absurd h hfail
    · exact ⟨by simpa using hcapable, not_not.mp hcreate, not_not.mp hset, not_not.mp henable,
        not_not.mp hparam⟩
  · intro h
    rw [if_neg (by simp [h.capable]), if_neg (not_not.mpr h.create),
      if_neg (not_not.mpr h.setConfig), if_neg (not_not.mpr h.enable),
      if_neg (not_not.mpr h.setParam)]

theorem Track.initTrackDownmix_status (t : Track) (capable : Bool) (mask : U32) :
    (t.initTrackDownmix capable mask replies).2 = 0#32 ↔ (MAX_NUM_CHANNELS < mask.cpop.toNat →
      Prepares capable t.sampleRate mask t.sessionId replies) := by
  simp only [Track.initTrackDownmix]
  split_ifs with h
  · rw [Track.prepareTrackForDownmix_status]
    exact ⟨fun hprep _ => hprep, fun hprep => hprep h⟩
  · exact ⟨fun _ hlt => absurd hlt h, fun _ => rfl⟩

variable {m : AudioMixer} {mask : U32} {sessionId : I32}

theorem AudioMixer.getTrackName_exhausted (h : m.freeNames = 0#32) :
    m.getTrackName mask sessionId replies = (m, -1) := by
  rw [AudioMixer.getTrackName, if_neg (not_not.mpr h)]

theorem AudioMixer.getTrackName_mTrackNames (h : m.freeNames ≠ 0#32) :
    (m.getTrackName mask sessionId replies).1.mTrackNames =
      m.mTrackNames ||| bit (bottomTrack m.freeNames) := by
  simp only [AudioMixer.getTrackName, if_pos h]
  split_ifs <;> rfl

theorem AudioMixer.getTrackName_prepared (h : m.freeNames ≠ 0#32)
    (hprep : MAX_NUM_CHANNELS < mask.cpop.toNat →
      Prepares m.isMultichannelCapable m.mSampleRate mask sessionId replies) :
    (m.getTrackName mask sessionId replies).2 = TRACK0 + (bottomTrack m.freeNames).val := by
  simp only [AudioMixer.getTrackName, if_pos h]
  rw [if_pos ((Track.initTrackDownmix_status _ _ mask).mpr hprep)]

theorem AudioMixer.getTrackName_unprepared (h : m.freeNames ≠ 0#32)
    (hprep : ¬ (MAX_NUM_CHANNELS < mask.cpop.toNat →
      Prepares m.isMultichannelCapable m.mSampleRate mask sessionId replies)) :
    (m.getTrackName mask sessionId replies).2 = -1 := by
  simp only [AudioMixer.getTrackName, if_pos h]
  rw [if_neg fun hstatus => hprep ((Track.initTrackDownmix_status _ _ mask).mp hstatus)]

/-! ## Runs -/

/-- `mTrackNames` is the set of the live names. -/
def Exact (s : Client) : Prop := s.live = nameSet s.mixer.mTrackNames

theorem new_exact (sampleRate : U32) (maxNumTracks : ℕ) (capable : Bool)
    (garbage : Fin MAX_NUM_TRACKS → Track) :
    Exact (.new sampleRate maxNumTracks capable garbage) := by
  ext name
  simp [Client.new, AudioMixer.new, mem_nameSet]

theorem Allocates.exact {s s' : Client} {e : Event} (h : Allocates s e) (hstep : step s e = some s') :
    Exact s' := h.names s' hstep

theorem step_getTrackName (s : Client) :
    step s (.getTrackName mask sessionId replies) =
      some ⟨(s.mixer.getTrackName mask sessionId replies).1,
        if (s.mixer.getTrackName mask sessionId replies).2 = -1 then s.live
        else insert (s.mixer.getTrackName mask sessionId replies).2 s.live⟩ := rfl

theorem step_getTrackName_exhausted {s : Client} (h : s.mixer.freeNames = 0#32) :
    step s (.getTrackName mask sessionId replies) = some s := by
  rw [step_getTrackName, AudioMixer.getTrackName_exhausted h, if_pos rfl]

/-- With no name free, a call changes nothing. -/
theorem allocates_of_exhausted {s : Client} (h : Exact s) (hfree : s.mixer.freeNames = 0#32) :
    Allocates s (.getTrackName mask sessionId replies) := by
  refine ⟨?_, ?_, ?_, ?_⟩
  · intro s' hs'
    rw [step_getTrackName_exhausted hfree, Option.mem_some_iff] at hs'
    rw [← hs']
    exact h
  · intro name hname hne
    rw [returned, AudioMixer.getTrackName_exhausted hfree, Option.mem_some_iff] at hname
    exact absurd hname.symm hne
  · intro _ s' hs'
    rw [step_getTrackName_exhausted hfree, Option.mem_some_iff] at hs'
    rw [← hs']
  · intro _ _
    rw [h]
    exact AudioMixer.configured_subset hfree

theorem bottomTrack_not_live {s : Client} (h : Exact s) (hfree : s.mixer.freeNames ≠ 0#32) :
    TRACK0 + (bottomTrack s.mixer.freeNames).val ∉ s.live := by
  rw [h, name_mem_nameSet, AudioMixer.bottomTrack_free hfree]
  exact Bool.false_ne_true

/-- A call that prepares the track it takes returns its name. -/
theorem allocates_of_prepared {s : Client} (h : Exact s) (hfree : s.mixer.freeNames ≠ 0#32)
    (hprep : Prepared s (.getTrackName mask sessionId replies)) :
    Allocates s (.getTrackName mask sessionId replies) := by
  have hname := AudioMixer.getTrackName_prepared hfree (hprep hfree)
  refine ⟨?_, ?_, ?_, fun _ hzero => absurd hzero hfree⟩
  · intro s' hs'
    rw [step_getTrackName, hname, if_neg (name_ne _), Option.mem_some_iff] at hs'
    rw [← hs', AudioMixer.getTrackName_mTrackNames hfree, nameSet_set, ← h]
  · intro name hret _
    rw [returned, hname, Option.mem_some_iff] at hret
    rw [← hret]
    exact bottomTrack_not_live h hfree
  · intro hret
    rw [returned, hname, Option.mem_some_iff] at hret
    exact absurd hret (name_ne _)

/-- A call that cannot prepare the track it takes returns -1 and keeps the bit. -/
theorem prepared_of_allocates {s : Client} (h : Exact s)
    (halloc : Allocates s (.getTrackName mask sessionId replies)) :
    Prepared s (.getTrackName mask sessionId replies) := by
  intro hfree
  by_contra hprep
  have hname := AudioMixer.getTrackName_unprepared hfree hprep
  have hreturned : -1 ∈ returned s (.getTrackName mask sessionId replies) := by
    rw [returned, hname]
    rfl
  have hsame := halloc.unchanged hreturned _ (step_getTrackName s)
  rw [AudioMixer.getTrackName_mTrackNames hfree] at hsame
  apply bottomTrack_not_live h hfree
  rw [h, ← hsame, nameSet_set]
  exact Finset.mem_insert_self _ _

/-- The other calls return no name and keep the live names exact. -/
theorem allocates_of_exact {s : Client} {e : Event} (hreturned : returned s e = none)
    (h : ∀ s' ∈ step s e, Exact s') : Allocates s e := by
  refine ⟨h, ?_, ?_, ?_⟩
  · intro name hname
    rw [hreturned] at hname
    exact absurd hname (Option.not_mem_none name)
  · intro hname
    rw [hreturned] at hname
    exact absurd hname (Option.not_mem_none _)
  · intro hname
    rw [hreturned] at hname
    exact absurd hname (Option.not_mem_none _)

theorem deleteTrackName_exact {s s' : Client} {name : ℤ} (h : Exact s)
    (hstep : step s (.deleteTrackName name) = some s') : Exact s' := by
  rw [step] at hstep
  split_ifs at hstep with hlive
  cases hstep
  rw [h, mem_nameSet] at hlive
  obtain ⟨i, -, rfl⟩ := hlive
  simp only [Exact, AudioMixer.deleteTrackName_mTrackNames, trackOf_name, nameSet_clear, ← h.symm]

theorem allocates_iff_prepared {s : Client} (e : Event) (h : Exact s) :
    Allocates s e ↔ Prepared s e := by
  cases e with
  | getTrackName mask sessionId replies =>
    refine ⟨prepared_of_allocates h, fun hprep => ?_⟩
    by_cases hfree : s.mixer.freeNames = 0#32
    · exact allocates_of_exhausted h hfree
    · exact allocates_of_prepared h hfree hprep
  | deleteTrackName name =>
    exact iff_of_true (allocates_of_exact rfl fun s' => deleteTrackName_exact h) trivial
  | enable name =>
    refine iff_of_true (allocates_of_exact rfl fun s' hs' => ?_) trivial
    rw [step, Option.mem_def, Option.ite_none_right_eq_some] at hs'
    rw [← Option.some_inj.mp hs'.2, Exact, AudioMixer.enable_mTrackNames]
    exact h
  | disable name =>
    refine iff_of_true (allocates_of_exact rfl fun s' hs' => ?_) trivial
    rw [step, Option.mem_def, Option.ite_none_right_eq_some] at hs'
    rw [← Option.some_inj.mp hs'.2, Exact, AudioMixer.disable_mTrackNames]
    exact h

/-- Every step of a run allocates names exactly when no call of it fails to prepare a downmixer. -/
theorem trackNames_exact (sampleRate : U32) (maxNumTracks : ℕ) (isMultichannelCapable : Bool)
    (garbage : Fin MAX_NUM_TRACKS → Track) (es : List Event) :
    Along step Allocates (.new sampleRate maxNumTracks isMultichannelCapable garbage) es ↔
      Along step Prepared (.new sampleRate maxNumTracks isMultichannelCapable garbage) es :=
  along_iff (I := Exact) (fun _ e h => allocates_iff_prepared e h)
    (fun _ _ _ h hstep _ => h.exact hstep)
    (new_exact sampleRate maxNumTracks isMultichannelCapable garbage) es

/-- A client of a mixer of one track, without a downmix effect. -/
def oneNameClient : Client :=
  .new 44100#32 1 false fun _ =>
    { needs := 0#32
      volume := (0#16, 0#16)
      volumeInc := (0#32, 0#32)
      auxLevel := 0#16
      auxInc := 0#32
      channelCount := 0
      enabled := false
      format := 0
      channelMask := 0#32
      sessionId := 0#32
      bufferProvider := none
      buffer := none
      hook := none
      input := none
      resampler := none
      sampleRate := 0#32
      mainBuffer := none
      auxBuffer := none
      downmixerBufferProvider := none }

/-- A request for a track of channels `mask`, which the effect library would serve. -/
def requestTrack (mask : U32) : Event := .getTrackName mask 1#32 ⟨fun _ => 0#32, fun _ => (0#32, 0#32)⟩

/-- A name is lost to a track of six channels; a stereo one gets none, with no name live. -/
theorem failedDownmix_leaks :
    ¬ Along step Allocates oneNameClient [requestTrack 0x3F#32, requestTrack 0x3#32] ∧
      ∃ s, run step oneNameClient [requestTrack 0x3F#32] = some s ∧ s.live = ∅ ∧
        s.mixer.mTrackNames = 1#32 ∧ returned s (requestTrack 0x3#32) = some (-1) := by
  refine ⟨fun h => ?_, _, rfl, rfl, by decide +kernel, by decide +kernel⟩
  have hsame := h.1.unchanged (by decide +kernel) _ rfl
  exact absurd hsame (by decide +kernel)

end AudioFlinger.Mixer.TrackNames
