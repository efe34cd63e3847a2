import AudioFlinger.StateQueue.Safety
import AudioFlinger.TrackShared.Transfer
import AudioFlinger.Nbaio.PipeAccounting
import AudioFlinger.NBLog.Dump
import AudioFlinger.Mixer.ExactMix
import AudioFlinger.Mixer.TrackNames
import AudioFlinger.Duplicating.InOrder
import AudioFlinger.ServiceManager.Registry
import AudioFlinger.Binder.Codecs
import AudioFlinger.Binder.ObjectTable
import AudioFlinger.MemoryDealer.Heap
import AudioFlinger.Driver.BufferRuns
import AudioFlinger.Unicode.Malformed
import AudioFlinger.Unicode.Strings16
import AudioFlinger.BlobCache.Accounting
import AudioFlinger.BlobCache.Reload
import AudioFlinger.Hashtable.Runs
import AudioFlinger.Effects.Suspension
import AudioFlinger.Effects.Registration
import AudioFlinger.EffectParams.Untrusted
import AudioFlinger.Playback.ChainCounts
import AudioFlinger.Playback.OutputUsage
import AudioFlinger.Playback.FastTracks
import AudioFlinger.Recording.StartStop
import AudioFlinger.Parameters.Requests
import AudioFlinger.Identifiers.Unique
import AudioFlinger.HeapCache.Balance
import AudioFlinger.AudioPolicy.Order
import AudioFlinger.OmxComponent.Events
import AudioFlinger.OmxComponent.Buffers
import AudioFlinger.OmxComponent.Pipeline
import AudioFlinger.Binder.CommandStream
import AudioFlinger.Utils.LifeCycle
import AudioFlinger.Binder.ProxyCounts
import AudioFlinger.Binder.Obituaries
import AudioFlinger.Downmix.Fold
import AudioFlinger.EchoReference.Filling
import AudioFlinger.Remote.Transparency
import AudioFlinger.Resampler.SincWindow
import AudioFlinger.SingleStateQueue.Polls
import AudioFlinger.StrParms.Runs
import AudioFlinger.TrackShared.StaticLoop
import AudioFlinger.Nbaio.Adaptors
import AudioFlinger.Nbaio.NextWriteTimestamp
import AudioFlinger.Mixer.VolumeRamp
import AudioFlinger.Resampler.ShortCalls
import AudioFlinger.Timed.Regions
import AudioFlinger.Client.NewPositions
import AudioFlinger.Client.Transfer
import AudioFlinger.Driver.Refs
import AudioFlinger.Utils.Reduce
import AudioFlinger.Utils.LinearExact
import AudioFlinger.Binder.ObjectLookup
import AudioFlinger.Effects.HandleRuns
import AudioFlinger.Effects.Volume
import AudioFlinger.Effects.Moving
import AudioFlinger.VectorImpl.Sorted
import AudioFlinger.VectorImpl.Sort
import AudioFlinger.Driver.ThreadRead
import AudioFlinger.Utils.WorkQueue
import AudioFlinger.Stagefright.SkipCutBuffer
import AudioFlinger.Resampler.Cubic
