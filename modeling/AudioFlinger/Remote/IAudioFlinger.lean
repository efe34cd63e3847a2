import AudioFlinger.Remote.Interface

/-!
# IAudioFlinger

`BpAudioFlinger` and `BnAudioFlinger::onTransact` in `libs/libmedia/IAudioFlinger.cpp`, each method as
the proxy writes and reads it and as the stub does. A pointer parameter is its contents, or whether
it is not NULL if only the object writes to it; `size_t` has 32 bits.
-/

namespace AudioFlinger.Remote.IAudioFlinger

def descriptor : String := "android.media.IAudioFlinger"

def TRACK_DEFAULT : Word := 0#32

def AUDIO_FORMAT_DEFAULT : Word := 0#32

inductive Code
  | CREATE_TRACK
  | OPEN_RECORD
  | SAMPLE_RATE
  | FORMAT
  | FRAME_COUNT
  | LATENCY
  | SET_MASTER_VOLUME
  | SET_MASTER_MUTE
  | MASTER_VOLUME
  | MASTER_MUTE
  | SET_STREAM_VOLUME
  | SET_STREAM_MUTE
  | STREAM_VOLUME
  | STREAM_MUTE
  | SET_MODE
  | SET_MIC_MUTE
  | GET_MIC_MUTE
  | SET_PARAMETERS
  | GET_PARAMETERS
  | REGISTER_CLIENT
  | GET_INPUTBUFFERSIZE
  | OPEN_OUTPUT
  | OPEN_DUPLICATE_OUTPUT
  | CLOSE_OUTPUT
  | SUSPEND_OUTPUT
  | RESTORE_OUTPUT
  | OPEN_INPUT
  | CLOSE_INPUT
  | SET_STREAM_OUTPUT
  | SET_VOICE_VOLUME
  | GET_RENDER_POSITION
  | GET_INPUT_FRAMES_LOST
  | NEW_AUDIO_SESSION_ID
  | ACQUIRE_AUDIO_SESSION_ID
  | RELEASE_AUDIO_SESSION_ID
  | QUERY_NUM_EFFECTS
  | QUERY_EFFECT
  | GET_EFFECT_DESCRIPTOR
  | CREATE_EFFECT
  | MOVE_EFFECTS
  | LOAD_HW_MODULE
  | GET_PRIMARY_OUTPUT_SAMPLING_RATE
  | GET_PRIMARY_OUTPUT_FRAME_COUNT

inductive Call
  | createTrack (streamType sampleRate format channelMask frameCount : Word) (flags : Option Word)
      (sharedBuffer : Binder) (output tid : Word) (sessionId : Option Word) (status : Bool)
  | openRecord (input sampleRate format channelMask frameCount flags tid : Word) (sessionId : Option Word)
      (status : Bool)
  | sampleRate (output : Word)
  | format (output : Word)
  | frameCount (output : Word)
  | latency (output : Word)
  | setMasterVolume (value : Word)
  | setMasterMute (muted : Bool)
  | masterVolume
  | masterMute
  | setStreamVolume (stream value output : Word)
  | setStreamMute (stream : Word) (muted : Bool)
  | streamVolume (stream output : Word)
  | streamMute (stream : Word)
  | setMode (mode : Word)
  | setMicMute (state : Bool)
  | getMicMute
  | setParameters (ioHandle : Word) (keyValuePairs : Bytes)
  | getParameters (ioHandle : Word) (keys : Bytes)
  | registerClient (client : Binder)
  | getInputBufferSize (sampleRate format channelMask : Word)
  | openOutput (module : Word) (pDevices pSamplingRate pFormat pChannelMask pLatencyMs : Option Word)
      (flags : Word)
  | openDuplicateOutput (output1 output2 : Word)
  | closeOutput (output : Word)
  | suspendOutput (output : Word)
  | restoreOutput (output : Word)
  | openInput (module : Word) (pDevices pSamplingRate pFormat pChannelMask : Option Word)
  | closeInput (input : Word)
  | setStreamOutput (stream output : Word)
  | setVoiceVolume (volume : Word)
  | getRenderPosition (halFrames dspFrames : Bool) (output : Word)
  | getInputFramesLost (ioHandle : Word)
  | newAudioSessionId
  | acquireAudioSessionId (audioSession : Word)
  | releaseAudioSessionId (audioSession : Word)
  | queryNumberEffects (numEffects : Bool)
  | queryEffect (index : Word) (pDescriptor : Bool)
  | getEffectDescriptor (pUuid : Option Bytes) (pDescriptor : Bool)
  | createEffect (pDesc : Option Bytes) (client : Binder) (priority output sessionId : Word)
      (status id enabled : Bool)
  | moveEffects (session srcOutput dstOutput : Word)
  | loadHwModule (name : Bytes)
  | getPrimaryOutputSamplingRate
  | getPrimaryOutputFrameCount

def shape : Call → Shape
  | .createTrack .. => .track
  | .openRecord .. => .record
  | .sampleRate .. => .word
  | .format .. => .word
  | .frameCount .. => .word
  | .latency .. => .word
  | .setMasterVolume .. => .word
  | .setMasterMute .. => .word
  | .masterVolume => .float
  | .masterMute => .flag
  | .setStreamVolume .. => .word
  | .setStreamMute .. => .word
  | .streamVolume .. => .float
  | .streamMute .. => .flag
  | .setMode .. => .word
  | .setMicMute .. => .word
  | .getMicMute => .flag
  | .setParameters .. => .word
  | .getParameters .. => .string
  | .registerClient .. => .nothing
  | .getInputBufferSize .. => .word
  | .openOutput .. => .output
  | .openDuplicateOutput .. => .word
  | .closeOutput .. => .word
  | .suspendOutput .. => .word
  | .restoreOutput .. => .word
  | .openInput .. => .input
  | .closeInput .. => .word
  | .setStreamOutput .. => .word
  | .setVoiceVolume .. => .word
  | .getRenderPosition .. => .position
  | .getInputFramesLost .. => .word
  | .newAudioSessionId => .word
  | .acquireAudioSessionId .. => .nothing
  | .releaseAudioSessionId .. => .nothing
  | .queryNumberEffects .. => .count
  | .queryEffect .. => .descriptor
  | .getEffectDescriptor .. => .descriptor
  | .createEffect .. => .effect
  | .moveEffects .. => .word
  | .loadHwModule .. => .word
  | .getPrimaryOutputSamplingRate => .word
  | .getPrimaryOutputFrameCount => .word

/-- The proxy. -/
def request : Call → Outcome ⊕ Code × Parcel
  | .createTrack streamType sampleRate format channelMask frameCount flags sharedBuffer output tid sessionId _ =>
    .inr (.CREATE_TRACK, [.token descriptor, .int32 streamType, .int32 sampleRate, .int32 format,
      .int32 channelMask, .int32 frameCount, .int32 (flags.getD TRACK_DEFAULT), .binder sharedBuffer,
      .int32 output, .int32 tid, .int32 (sessionId.getD 0#32)])
  | .openRecord input sampleRate format channelMask frameCount flags tid sessionId _ =>
    .inr (.OPEN_RECORD, [.token descriptor, .int32 input, .int32 sampleRate, .int32 format, .int32 channelMask,
      .int32 frameCount, .int32 flags, .int32 tid, .int32 (sessionId.getD 0#32)])
  | .sampleRate output => .inr (.SAMPLE_RATE, [.token descriptor, .int32 output])
  | .format output => .inr (.FORMAT, [.token descriptor, .int32 output])
  | .frameCount output => .inr (.FRAME_COUNT, [.token descriptor, .int32 output])
  | .latency output => .inr (.LATENCY, [.token descriptor, .int32 output])
  | .setMasterVolume value => .inr (.SET_MASTER_VOLUME, [.token descriptor, .float value])
  | .setMasterMute muted => .inr (.SET_MASTER_MUTE, [.token descriptor, .bool muted])
  | .masterVolume => .inr (.MASTER_VOLUME, [.token descriptor])
  | .masterMute => .inr (.MASTER_MUTE, [.token descriptor])
  | .setStreamVolume stream value output =>
    .inr (.SET_STREAM_VOLUME, [.token descriptor, .int32 stream, .float value, .int32 output])
  | .setStreamMute stream muted => .inr (.SET_STREAM_MUTE, [.token descriptor, .int32 stream, .bool muted])
  | .streamVolume stream output => .inr (.STREAM_VOLUME, [.token descriptor, .int32 stream, .int32 output])
  | .streamMute stream => .inr (.STREAM_MUTE, [.token descriptor, .int32 stream])
  | .setMode mode => .inr (.SET_MODE, [.token descriptor, .int32 mode])
  | .setMicMute state => .inr (.SET_MIC_MUTE, [.token descriptor, .bool state])
  | .getMicMute => .inr (.GET_MIC_MUTE, [.token descriptor])
  | .setParameters ioHandle keyValuePairs =>
    .inr (.SET_PARAMETERS, [.token descriptor, .int32 ioHandle, .string8 keyValuePairs])
  | .getParameters ioHandle keys => .inr (.GET_PARAMETERS, [.token descriptor, .int32 ioHandle, .string8 keys])
  | .registerClient client => .inr (.REGISTER_CLIENT, [.token descriptor, .binder client])
  | .getInputBufferSize sampleRate format channelMask =>
    .inr (.GET_INPUTBUFFERSIZE, [.token descriptor, .int32 sampleRate, .int32 format, .int32 channelMask])
  | .openOutput module pDevices pSamplingRate pFormat pChannelMask pLatencyMs flags =>
    .inr (.OPEN_OUTPUT, [.token descriptor, .int32 module, .int32 (pDevices.getD 0#32),
      .int32 (pSamplingRate.getD 0#32), .int32 (pFormat.getD AUDIO_FORMAT_DEFAULT),
      .int32 (pChannelMask.getD 0#32), .int32 (pLatencyMs.getD 0#32), .int32 flags])
  | .openDuplicateOutput output1 output2 =>
    .inr (.OPEN_DUPLICATE_OUTPUT, [.token descriptor, .int32 output1, .int32 output2])
  | .closeOutput output => .inr (.CLOSE_OUTPUT, [.token descriptor, .int32 output])
  | .suspendOutput output => .inr (.SUSPEND_OUTPUT, [.token descriptor, .int32 output])
  | .restoreOutput output => .inr (.RESTORE_OUTPUT, [.token descriptor, .int32 output])
  | .openInput module pDevices pSamplingRate pFormat pChannelMask =>
    .inr (.OPEN_INPUT, [.token descriptor, .int32 module, .int32 (pDevices.getD 0#32),
      .int32 (pSamplingRate.getD 0#32), .int32 (pFormat.getD AUDIO_FORMAT_DEFAULT),
      .int32 (pChannelMask.getD 0#32)])
  | .closeInput input => .inr (.CLOSE_INPUT, [.token descriptor, .int32 input])
  | .setStreamOutput stream output =>
    .inr (.SET_STREAM_OUTPUT, [.token descriptor, .int32 stream, .int32 output])
  | .setVoiceVolume volume => .inr (.SET_VOICE_VOLUME, [.token descriptor, .float volume])
  | .getRenderPosition _ _ output => .inr (.GET_RENDER_POSITION, [.token descriptor, .int32 output])
  | .getInputFramesLost ioHandle => .inr (.GET_INPUT_FRAMES_LOST, [.token descriptor, .int32 ioHandle])
  | .newAudioSessionId => .inr (.NEW_AUDIO_SESSION_ID, [.token descriptor])
  | .acquireAudioSessionId audioSession =>
    .inr (.ACQUIRE_AUDIO_SESSION_ID, [.token descriptor, .int32 audioSession])
  | .releaseAudioSessionId audioSession =>
    .inr (.RELEASE_AUDIO_SESSION_ID, [.token descriptor, .int32 audioSession])
  | .queryNumberEffects _ => .inr (.QUERY_NUM_EFFECTS, [.token descriptor])
  | .queryEffect index pDescriptor =>
    if pDescriptor then .inr (.QUERY_EFFECT, [.token descriptor, .int32 index])
    else .inl ⟨some (.int32 BAD_VALUE), none, [none]⟩
  | .getEffectDescriptor pUuid pDescriptor =>
    match pUuid, pDescriptor with
    | some uuid, true => .inr (.GET_EFFECT_DESCRIPTOR, [.token descriptor, .raw uuid])
    | _, _ => .inl ⟨some (.int32 BAD_VALUE), none, [none]⟩
  -- the assignment to `*status` after `return effect` is never reached
  | .createEffect none _ _ _ _ _ _ _ => .inl ⟨some (.binder none), none, [none, none, none]⟩
  | .createEffect (some desc) client priority output sessionId _ _ _ =>
    .inr (.CREATE_EFFECT, [.token descriptor, .raw desc, .binder client, .int32 priority, .int32 output,
      .int32 sessionId])
  | .moveEffects session srcOutput dstOutput =>
    .inr (.MOVE_EFFECTS, [.token descriptor, .int32 session, .int32 srcOutput, .int32 dstOutput])
  | .loadHwModule name => .inr (.LOAD_HW_MODULE, [.token descriptor, .cString name])
  | .getPrimaryOutputSamplingRate => .inr (.GET_PRIMARY_OUTPUT_SAMPLING_RATE, [.token descriptor])
  | .getPrimaryOutputFrameCount => .inr (.GET_PRIMARY_OUTPUT_FRAME_COUNT, [.token descriptor])

/-- What the stub reads for a code, and the call that it makes. -/
def arguments : Code → Reader Call
  | .CREATE_TRACK => do
    let streamType ← readInt32
    let sampleRate ← readInt32
    let format ← readInt32
    let channelMask ← readInt32
    let frameCount ← readInt32
    let flags ← readInt32
    let buffer ← readStrongBinder
    let output ← readInt32
    let tid ← readInt32
    let sessionId ← readInt32
    return .createTrack streamType sampleRate format channelMask frameCount (some flags) buffer output tid
      (some sessionId) true
  | .OPEN_RECORD => do
    let input ← readInt32
    let sampleRate ← readInt32
    let format ← readInt32
    let channelMask ← readInt32
    let frameCount ← readInt32
    let flags ← readInt32
    let tid ← readInt32
    let sessionId ← readInt32
    return .openRecord input sampleRate format channelMask frameCount flags tid (some sessionId) true
  | .SAMPLE_RATE => return .sampleRate (← readInt32)
  | .FORMAT => return .format (← readInt32)
  | .FRAME_COUNT => return .frameCount (← readInt32)
  | .LATENCY => return .latency (← readInt32)
  | .SET_MASTER_VOLUME => return .setMasterVolume (← readFloat)
  | .SET_MASTER_MUTE => return .setMasterMute (← readBool)
  | .MASTER_VOLUME => return .masterVolume
  | .MASTER_MUTE => return .masterMute
  | .SET_STREAM_VOLUME => do
    let stream ← readInt32
    let value ← readFloat
    let output ← readInt32
    return .setStreamVolume stream value output
  | .SET_STREAM_MUTE => do
    let stream ← readInt32
    let muted ← readBool
    return .setStreamMute stream muted
  | .STREAM_VOLUME => do
    let stream ← readInt32
    let output ← readInt32
    return .streamVolume stream output
  | .STREAM_MUTE => return .streamMute (← readInt32)
  | .SET_MODE => return .setMode (← readInt32)
  | .SET_MIC_MUTE => return .setMicMute (← readBool)
  | .GET_MIC_MUTE => return .getMicMute
  | .SET_PARAMETERS => do
    let ioHandle ← readInt32
    let keyValuePairs ← readString8
    return .setParameters ioHandle keyValuePairs
  | .GET_PARAMETERS => do
    let ioHandle ← readInt32
    let keys ← readString8
    return .getParameters ioHandle keys
  | .REGISTER_CLIENT => return .registerClient (← readStrongBinder)
  | .GET_INPUTBUFFERSIZE => do
    let sampleRate ← readInt32
    let format ← readInt32
    let channelMask ← readInt32
    return .getInputBufferSize sampleRate format channelMask
  | .OPEN_OUTPUT => do
    let module ← readInt32
    let devices ← readInt32
    let samplingRate ← readInt32
    let format ← readInt32
    let channelMask ← readInt32
    let latency ← readInt32
    let flags ← readInt32
    return .openOutput module (some devices) (some samplingRate) (some format) (some channelMask)
      (some latency) flags
  | .OPEN_DUPLICATE_OUTPUT => do
    let output1 ← readInt32
    let output2 ← readInt32
    return .openDuplicateOutput output1 output2
  | .CLOSE_OUTPUT => return .closeOutput (← readInt32)
  | .SUSPEND_OUTPUT => return .suspendOutput (← readInt32)
  | .RESTORE_OUTPUT => return .restoreOutput (← readInt32)
  | .OPEN_INPUT => do
    let module ← readInt32
    let devices ← readInt32
    let samplingRate ← readInt32
    let format ← readInt32
    let channelMask ← readInt32
    return .openInput module (some devices) (some samplingRate) (some format) (some channelMask)
  | .CLOSE_INPUT => return .closeInput (← readInt32)
  | .SET_STREAM_OUTPUT => do
    let stream ← readInt32
    let output ← readInt32
    return .setStreamOutput stream output
  | .SET_VOICE_VOLUME => return .setVoiceVolume (← readFloat)
  | .GET_RENDER_POSITION => return .getRenderPosition true true (← readInt32)
  | .GET_INPUT_FRAMES_LOST => return .getInputFramesLost (← readInt32)
  | .NEW_AUDIO_SESSION_ID => return .newAudioSessionId
  | .ACQUIRE_AUDIO_SESSION_ID => return .acquireAudioSessionId (← readInt32)
  | .RELEASE_AUDIO_SESSION_ID => return .releaseAudioSessionId (← readInt32)
  | .QUERY_NUM_EFFECTS => return .queryNumberEffects true
  | .QUERY_EFFECT => return .queryEffect (← readInt32) true
  | .GET_EFFECT_DESCRIPTOR => return .getEffectDescriptor (some (← readRaw)) true
  | .CREATE_EFFECT => do
    let desc ← readRaw
    let client ← readStrongBinder
    let priority ← readInt32
    let output ← readInt32
    let sessionId ← readInt32
    return .createEffect (some desc) client priority output sessionId true true true
  | .MOVE_EFFECTS => do
    let session ← readInt32
    let srcOutput ← readInt32
    let dstOutput ← readInt32
    return .moveEffects session srcOutput dstOutput
  | .LOAD_HW_MODULE => return .loadHwModule (← readCString)
  | .GET_PRIMARY_OUTPUT_SAMPLING_RATE => return .getPrimaryOutputSamplingRate
  | .GET_PRIMARY_OUTPUT_FRAME_COUNT => return .getPrimaryOutputFrameCount

/-- What the stub writes. -/
def reply : (c : Call) → (shape c).Answer → Parcel
  | .createTrack .., a =>
    let a : TrackAnswer := a
    [.int32 a.flags, .int32 a.sessionId, .int32 a.status, .binder a.track]
  | .openRecord .., a =>
    let a : RecordAnswer := a
    [.int32 a.sessionId, .int32 a.status, .binder a.record]
  | .sampleRate .., a => [.int32 a]
  | .format .., a => [.int32 a]
  | .frameCount .., a => [.int32 a]
  | .latency .., a => [.int32 a]
  | .setMasterVolume .., a => [.int32 a]
  | .setMasterMute .., a => [.int32 a]
  | .masterVolume, a => [.float a]
  | .masterMute, a => [.bool a]
  | .setStreamVolume .., a => [.int32 a]
  | .setStreamMute .., a => [.int32 a]
  | .streamVolume .., a => [.float a]
  | .streamMute .., a => [.bool a]
  | .setMode .., a => [.int32 a]
  | .setMicMute .., a => [.int32 a]
  | .getMicMute, a => [.bool a]
  | .setParameters .., a => [.int32 a]
  | .getParameters .., a => [.string8 a]
  | .registerClient .., _ => []
  | .getInputBufferSize .., a => [.int32 a]
  | .openOutput .., a =>
    let a : OutputAnswer := a
    [.int32 a.handle, .int32 a.devices, .int32 a.samplingRate, .int32 a.format, .int32 a.channelMask,
      .int32 a.latencyMs]
  | .openDuplicateOutput .., a => [.int32 a]
  | .closeOutput .., a => [.int32 a]
  | .suspendOutput .., a => [.int32 a]
  | .restoreOutput .., a => [.int32 a]
  | .openInput .., a =>
    let a : InputAnswer := a
    [.int32 a.handle, .int32 a.devices, .int32 a.samplingRate, .int32 a.format, .int32 a.channelMask]
  | .closeInput .., a => [.int32 a]
  | .setStreamOutput .., a => [.int32 a]
  | .setVoiceVolume .., a => [.int32 a]
  | .getRenderPosition .., a =>
    let a : PositionAnswer := a
    .int32 a.status :: if a.status = NO_ERROR then [.int32 a.halFrames, .int32 a.dspFrames] else []
  | .getInputFramesLost .., a => [.int32 a]
  | .newAudioSessionId, a => [.int32 a]
  | .acquireAudioSessionId .., _ => []
  | .releaseAudioSessionId .., _ => []
  | .queryNumberEffects _, a =>
    let a : CountAnswer := a
    .int32 a.status :: if a.status = NO_ERROR then [.int32 a.numEffects] else []
  | .queryEffect .., a =>
    let a : DescriptorAnswer := a
    .int32 a.status :: if a.status = NO_ERROR then [.raw a.descriptor] else []
  | .getEffectDescriptor .., a =>
    let a : DescriptorAnswer := a
    .int32 a.status :: if a.status = NO_ERROR then [.raw a.descriptor] else []
  | .createEffect .., a =>
    let a : EffectAnswer := a
    [.int32 a.status, .int32 a.id, .int32 a.enabled, .binder a.effect, .raw a.descriptor]
  | .moveEffects .., a => [.int32 a]
  | .loadHwModule .., a => [.int32 a]
  | .getPrimaryOutputSamplingRate, a => [.int32 a]
  | .getPrimaryOutputFrameCount, a => [.int32 a]

/-- What the proxy returns from a reply, and writes through the pointers. -/
def result : Call → Reader Outcome
  | .createTrack _ _ _ _ _ flags _ _ _ sessionId status => do
    let lFlags ← readInt32
    let lSessionId ← readInt32
    let lStatus ← readInt32
    let track ← readStrongBinder
    return ⟨some (.binder track), out status lStatus,
      [out flags.isSome (.int32 lFlags), out sessionId.isSome (.int32 lSessionId)]⟩
  | .openRecord _ _ _ _ _ _ _ sessionId status => do
    let lSessionId ← readInt32
    let lStatus ← readInt32
    let record ← readStrongBinder
    return ⟨some (.binder record), out status lStatus, [out sessionId.isSome (.int32 lSessionId)]⟩
  | .sampleRate .. => return ⟨some (.int32 (← readInt32)), none, []⟩
  | .format .. => return ⟨some (.int32 (← readInt32)), none, []⟩
  | .frameCount .. => return ⟨some (.int32 (← readInt32)), none, []⟩
  | .latency .. => return ⟨some (.int32 (← readInt32)), none, []⟩
  | .setMasterVolume .. => return ⟨some (.int32 (← readInt32)), none, []⟩
  | .setMasterMute .. => return ⟨some (.int32 (← readInt32)), none, []⟩
  | .masterVolume => return ⟨some (.float (← readFloat)), none, []⟩
  | .masterMute => return ⟨some (.bool (← readBool)), none, []⟩
  | .setStreamVolume .. => return ⟨some (.int32 (← readInt32)), none, []⟩
  | .setStreamMute .. => return ⟨some (.int32 (← readInt32)), none, []⟩
  | .streamVolume .. => return ⟨some (.float (← readFloat)), none, []⟩
  | .streamMute .. => return ⟨some (.bool (← readBool)), none, []⟩
  | .setMode .. => return ⟨some (.int32 (← readInt32)), none, []⟩
  | .setMicMute .. => return ⟨some (.int32 (← readInt32)), none, []⟩
  | .getMicMute => return ⟨some (.bool (← readBool)), none, []⟩
  | .setParameters .. => return ⟨some (.int32 (← readInt32)), none, []⟩
  | .getParameters .. => return ⟨some (.string8 (← readString8)), none, []⟩
  | .registerClient .. => return ⟨none, none, []⟩
  | .getInputBufferSize .. => return ⟨some (.int32 (← readInt32)), none, []⟩
  | .openOutput _ pDevices pSamplingRate pFormat pChannelMask pLatencyMs _ => do
    let output ← readInt32
    let devices ← readInt32
    let samplingRate ← readInt32
    let format ← readInt32
    let channelMask ← readInt32
    let latency ← readInt32
    return ⟨some (.int32 output), none, [out pDevices.isSome (.int32 devices),
      out pSamplingRate.isSome (.int32 samplingRate), out pFormat.isSome (.int32 format),
      out pChannelMask.isSome (.int32 channelMask), out pLatencyMs.isSome (.int32 latency)]⟩
  | .openDuplicateOutput .. => return ⟨some (.int32 (← readInt32)), none, []⟩
  | .closeOutput .. => return ⟨some (.int32 (← readInt32)), none, []⟩
  | .suspendOutput .. => return ⟨some (.int32 (← readInt32)), none, []⟩
  | .restoreOutput .. => return ⟨some (.int32 (← readInt32)), none, []⟩
  | .openInput _ pDevices pSamplingRate pFormat pChannelMask => do
    let input ← readInt32
    let devices ← readInt32
    let samplingRate ← readInt32
    let format ← readInt32
    let channelMask ← readInt32
    return ⟨some (.int32 input), none, [out pDevices.isSome (.int32 devices),
      out pSamplingRate.isSome (.int32 samplingRate), out pFormat.isSome (.int32 format),
      out pChannelMask.isSome (.int32 channelMask)]⟩
  | .closeInput .. => return ⟨some (.int32 (← readInt32)), none, []⟩
  | .setStreamOutput .. => return ⟨some (.int32 (← readInt32)), none, []⟩
  | .setVoiceVolume .. => return ⟨some (.int32 (← readInt32)), none, []⟩
  | .getRenderPosition halFrames dspFrames _ => do
    let status ← readInt32
    if status = NO_ERROR then
      let hal ← readInt32
      let dsp ← readInt32
      return ⟨some (.int32 status), none, [out halFrames (.int32 hal), out dspFrames (.int32 dsp)]⟩
    else return ⟨some (.int32 status), none, [none, none]⟩
  | .getInputFramesLost .. => return ⟨some (.int32 (← readInt32)), none, []⟩
  | .newAudioSessionId => return ⟨some (.int32 (← readInt32)), none, []⟩
  | .acquireAudioSessionId .. => return ⟨none, none, []⟩
  | .releaseAudioSessionId .. => return ⟨none, none, []⟩
  | .queryNumberEffects numEffects => do
    let status ← readInt32
    if status ≠ NO_ERROR then return ⟨some (.int32 status), none, [none]⟩
    else if numEffects then return ⟨some (.int32 NO_ERROR), none, [some (.int32 (← readInt32))]⟩
    else return ⟨some (.int32 NO_ERROR), none, [none]⟩
  | .queryEffect .. => do
    let status ← readInt32
    if status ≠ NO_ERROR then return ⟨some (.int32 status), none, [none]⟩
    else return ⟨some (.int32 NO_ERROR), none, [some (.raw (← readRaw))]⟩
  | .getEffectDescriptor .. => do
    let status ← readInt32
    if status ≠ NO_ERROR then return ⟨some (.int32 status), none, [none]⟩
    else return ⟨some (.int32 NO_ERROR), none, [some (.raw (← readRaw))]⟩
  | .createEffect _ _ _ _ _ status id enabled => do
    let lStatus ← readInt32
    let lId ← readInt32
    let lEnabled ← readInt32
    let effect ← readStrongBinder
    let desc ← readRaw
    return ⟨some (.binder effect), out status lStatus,
      [some (.raw desc), out id (.int32 lId), out enabled (.int32 lEnabled)]⟩
  | .moveEffects .. => return ⟨some (.int32 (← readInt32)), none, []⟩
  | .loadHwModule .. => return ⟨some (.int32 (← readInt32)), none, []⟩
  | .getPrimaryOutputSamplingRate => return ⟨some (.int32 (← readInt32)), none, []⟩
  | .getPrimaryOutputFrameCount => return ⟨some (.int32 (← readInt32)), none, []⟩

def statusPointer : Call → Bool
  | .createTrack _ _ _ _ _ _ _ _ _ _ status => status
  | .openRecord _ _ _ _ _ _ _ _ status => status
  | .createEffect _ _ _ _ _ status _ _ => status
  | _ => false

/-- The pointers that are not NULL, besides `status`. -/
def pointers : Call → List Bool
  | .createTrack _ _ _ _ _ flags _ _ _ sessionId _ => [flags.isSome, sessionId.isSome]
  | .openRecord _ _ _ _ _ _ _ sessionId _ => [sessionId.isSome]
  | .openOutput _ pDevices pSamplingRate pFormat pChannelMask pLatencyMs _ =>
    [pDevices.isSome, pSamplingRate.isSome, pFormat.isSome, pChannelMask.isSome, pLatencyMs.isSome]
  | .openInput _ pDevices pSamplingRate pFormat pChannelMask =>
    [pDevices.isSome, pSamplingRate.isSome, pFormat.isSome, pChannelMask.isSome]
  | .getRenderPosition halFrames dspFrames _ => [halFrames, dspFrames]
  | .queryNumberEffects numEffects => [numEffects]
  | .queryEffect _ pDescriptor => [pDescriptor]
  | .getEffectDescriptor _ pDescriptor => [pDescriptor]
  | .createEffect pDesc _ _ _ _ _ id enabled => [pDesc.isSome, id, enabled]
  | _ => []

end AudioFlinger.Remote.IAudioFlinger

namespace AudioFlinger.Remote

open IAudioFlinger

def iAudioFlinger : Interface where
  Call := Call
  Code := Code
  shape := shape
  request := request
  arguments code data := (checkInterface descriptor data).map fun data => (arguments code data).1
  reply := reply
  result c data := (result c data).1
  statusPointer := statusPointer
  pointers := pointers

end AudioFlinger.Remote
