import Mathlib.Algebra.Order.Ring.Int
import AudioFlinger.EchoReference.Stream

/-!
# The buffer holds the stream

The frames of the buffer up to the fill level are those that wait for the reader. Writes, the delay
correction and reads keep that as long as what is appended fits and no product overflows.
-/

namespace AudioFlinger.EchoReference

open Foundation

structure Holds (c : Config) (er : Reference) (q : Stream) : Prop where
  reading : er.reading = q.reading
  writing : er.writing = q.writing
  stamped : q.stamped = decide (er.wr_render_time ≠ .zero)
  size : er.buffer.length = er.buf_size
  bytes : er.buf_size * c.rd_frame_size < 2 ^ c.wordBits
  fits : er.frames_in ≤ er.buf_size
  level : er.frames_in = q.pending.length
  pending : q.pending.map some <+: er.buffer
  wrSize : er.wr_buf.length = er.wr_buf_size

variable {c : Config} {er : Reference} {q : Stream} {n m : ℕ}

/-! ## Sizes -/

theorem Config.frameSize_pos (c : Config) : 0 < c.rd_frame_size := by
  rw [Config.rd_frame_size]
  rcases c.channels with h | h <;> rw [h] <;> decide

/-- A size in bytes that does not overflow is that of its frames. -/
theorem Config.span_eq (h : n * c.rd_frame_size < 2 ^ c.wordBits) : c.span n = n := by
  rw [Config.span, Nat.mod_eq_of_lt h, Nat.mul_div_cancel _ c.frameSize_pos]

theorem Config.bytes_mono (hle : n ≤ m) (h : m * c.rd_frame_size < 2 ^ c.wordBits) :
    n * c.rd_frame_size < 2 ^ c.wordBits :=
  lt_of_le_of_lt (Nat.mul_le_mul_right _ hle) h

theorem Config.frames_lt (h : n * c.rd_frame_size < 2 ^ c.wordBits) : n < 2 ^ c.wordBits :=
  lt_of_le_of_lt (Nat.le_mul_of_pos_right n c.frameSize_pos) h

theorem Config.raw_bytes (h : n * 4 < 2 ^ c.wordBits) : n * c.rd_frame_size < 2 ^ c.wordBits := by
  rw [Config.rd_frame_size]
  rcases c.channels with hch | hch <;> rw [hch] <;> omega

/-! ## Starting and stopping -/

namespace Holds

theorem new : Holds c .new .new where
  reading := rfl
  writing := rfl
  stamped := rfl
  size := rfl
  bytes := by
    rw [show Reference.new.buf_size = 0 from rfl, Nat.zero_mul]
    exact Nat.two_pow_pos _
  fits := le_rfl
  level := rfl
  pending := List.prefix_rfl
  wrSize := rfl

theorem reset (h : Holds c er q) : Holds c er.reset_l q.reset where
  reading := h.reading
  writing := h.writing
  stamped := rfl
  size := rfl
  bytes := by
    rw [show er.reset_l.buf_size = 0 from rfl, Nat.zero_mul]
    exact Nat.two_pow_pos _
  fits := le_rfl
  level := rfl
  pending := List.prefix_rfl
  wrSize := rfl

theorem stopWrite (h : Holds c er q) : Holds c er.stopWrite { q.reset with writing := false } :=
  { h.reset with writing := rfl }

theorem stopRead (h : Holds c er q) : Holds c er.stopRead { q with reading := false } :=
  { h with reading := rfl }

theorem startRead (h : Holds c er q) : Holds c er.startRead q.started := by
  rw [Reference.startRead, Stream.started, h.reading]
  split
  · exact h
  · exact { h.reset with reading := rfl }

end Holds

theorem startRead_writing (er : Reference) : er.startRead.writing = er.writing := by
  rw [Reference.startRead]
  split <;> rfl

/-! ## Writing -/

/-- Frames that fit are appended. -/
theorem appendFrames_spec (h : Holds c er q) {src : List (Option Frame)} {frames : List Frame}
    (hsrc : frames.map some <+: src) (hfit : er.frames_in + frames.length ≤ er.buf_size) :
    ∃ er', er.appendFrames c src frames.length = some er' ∧
      Holds c er' { q with
        pending := q.pending ++ frames
        written := q.written ++ frames } := by
  have hspan : c.span frames.length = (frames.map some).length := by
    rw [Config.span_eq (Config.bytes_mono (by omega) h.bytes), List.length_map]
  have hat : c.span er.frames_in = (q.pending.map some).length := by
    rw [Config.span_eq (Config.bytes_mono h.fits h.bytes), h.level, List.length_map]
  have hslice := Cells.slice_front hsrc
  have hroom : (q.pending.map some).length + (frames.map some).length ≤ er.buffer.length := by
    rw [List.length_map, List.length_map, h.size, ← h.level]
    exact hfit
  obtain ⟨buffer, hfill, hlength, hprefix⟩ := Cells.fill_append h.pending hroom
  have hsum : (er.frames_in + frames.length) % 2 ^ c.wordBits = er.frames_in + frames.length :=
    Nat.mod_eq_of_lt (lt_of_le_of_lt hfit (Config.frames_lt h.bytes))
  refine ⟨{ er with
    buffer := buffer
    frames_in := er.frames_in + frames.length }, ?_, ?_⟩
  · simp only [Reference.appendFrames, hspan, hat, hslice, hfill, hsum, Option.bind_eq_bind, Option.bind_some]
    rfl
  · exact { h with
      size := hlength.trans h.size
      fits := hfit
      level := by rw [List.length_append, ← h.level]
      pending := by rw [List.map_append]; exact hprefix }

/-- The conversion buffer gets room for the frames. -/
theorem growWrBuf_spec (h : Holds c er q) (hbytes : n * c.rd_frame_size < 2 ^ c.wordBits) :
    Holds c (er.growWrBuf c n) q ∧ (er.growWrBuf c n).buf_size = er.buf_size ∧
      (er.growWrBuf c n).resampler = er.resampler ∧ n ≤ (er.growWrBuf c n).wr_buf.length := by
  rw [Reference.growWrBuf]
  split
  · refine ⟨{ h with wrSize := ?_ }, rfl, rfl, ?_⟩
    · exact Cells.resize_length.trans (Config.span_eq hbytes)
    · rw [Cells.resize_length, Config.span_eq hbytes]
  · refine ⟨h, rfl, rfl, ?_⟩
    rw [h.wrSize]
    omega

/-- Stereo to mono fits in the conversion buffer. -/
theorem downmix_spec (h : Holds c er q) (b : Written) (hroom : b.raw.length ≤ er.wr_buf.length) :
    ∃ er', er.downmix c b = some er' ∧ Holds c er' q ∧ er'.buf_size = er.buf_size ∧
      er'.resampler = er.resampler ∧ er'.wr_buf.length = er.wr_buf.length ∧
      (c.downmixes = true → (b.raw.map c.convert).map some <+: er'.wr_buf) := by
  rw [Reference.downmix]
  split
  · next hmix =>
    obtain ⟨wr_buf, hfill, hlength, hprefix⟩ := @Cells.fill_front _ er.wr_buf
      (b.raw.map fun frame => some (Config.downmixed frame)) (by rw [List.length_map]; exact hroom)
    refine ⟨{ er with wr_buf := wr_buf }, by rw [hfill]; rfl, { h with wrSize := hlength.trans h.wrSize }, rfl, rfl,
      hlength, fun _ => ?_⟩
    rw [List.map_map]
    have hconvert : (b.raw.map fun frame => some (Config.downmixed frame)) = b.raw.map (some ∘ c.convert) := by
      apply List.map_congr_left
      intro frame _
      rw [Function.comp, Config.convert, if_pos hmix]
    rw [← hconvert]
    exact hprefix
  · next hmix => exact ⟨er, rfl, h, rfl, rfl, rfl, fun hmix' => absurd hmix' hmix⟩

/-- The conversions leave the frames for the reader in `wr_buf`, or the resampler is missing. -/
theorem convertFrames_spec (h : Holds c er q) {b : Written} {creates : Bool} {produced : List Frame}
    (hconverts : c.downmixes = true ∨ c.resamples = true) (hproper : Proper c (.write b creates produced))
    (hresample : c.resamples = true → c.wr_sampling_rate ≠ 0 ∧
      b.raw.length * c.rd_sampling_rate < 2 ^ c.wordBits ∧
      (b.raw.length * c.rd_sampling_rate / c.wr_sampling_rate + RESAMPLER_HEADROOM_SAMPLES) *
        c.rd_frame_size < 2 ^ c.wordBits) :
    (c.resamples = true ∧ er.resampler = false ∧ creates = false ∧
      ∃ er', er.convertFrames c b creates produced = some (none, er') ∧ Holds c er' q) ∨
    ¬ (c.resamples = true ∧ er.resampler = false ∧ creates = false) ∧
      ∃ er', er.convertFrames c b creates produced = some (some (c.frames b produced).length, er') ∧
        Holds c er' q ∧ er'.buf_size = er.buf_size ∧ (c.frames b produced).map some <+: er'.wr_buf := by
  have hraw := Config.raw_bytes hproper.1
  cases hr : c.resamples with
  | false =>
    right
    obtain ⟨hgrow, hsize, -, hroom⟩ := growWrBuf_spec h hraw
    obtain ⟨er', hmix, hholds, hsize', -, -, hprefix⟩ := downmix_spec hgrow b hroom
    have hdown : c.downmixes = true := hconverts.resolve_right (by rw [hr]; decide)
    refine ⟨fun hnot => Bool.noConfusion hnot.1, er', ?_, hholds, hsize'.trans hsize, ?_⟩
    · simp only [Reference.convertFrames, hr, Bool.false_eq_true, if_false, hmix, Option.bind_eq_bind,
        Option.bind_some, Config.frames, List.length_map]
      rfl
    · rw [Config.frames, hr]
      exact hprefix hdown
  | true =>
    obtain ⟨hrate, hproduct, hbytes⟩ := hresample hr
    have hrequested : c.requested b.raw.length =
        some (b.raw.length * c.rd_sampling_rate / c.wr_sampling_rate + RESAMPLER_HEADROOM_SAMPLES) := by
      rw [Config.requested, Config.div, if_neg hrate, Option.map_some, Nat.mod_eq_of_lt hproduct,
        Nat.mod_eq_of_lt (Config.frames_lt hbytes)]
    have hproduced := hproper.2 hr _ hrequested
    generalize b.raw.length * c.rd_sampling_rate / c.wr_sampling_rate + RESAMPLER_HEADROOM_SAMPLES =
      inFrames at hbytes hrequested hproduced
    have hmax : max b.raw.length inFrames * c.rd_frame_size < 2 ^ c.wordBits := by
      rcases Nat.le_total b.raw.length inFrames with hle | hle
      · rw [Nat.max_eq_right hle]
        exact hbytes
      · rw [Nat.max_eq_left hle]
        exact hraw
    obtain ⟨hgrow, hsize, hresampler, hroom⟩ := growWrBuf_spec h hmax
    obtain ⟨er', hmix, hholds, hsize', hresampler', hlength, -⟩ := downmix_spec hgrow b (by lia)
    by_cases hmissing : er.resampler = false ∧ creates = false
    · left
      obtain ⟨hnone, rfl⟩ := hmissing
      refine ⟨rfl, hnone, rfl, er', ?_, hholds⟩
      simp only [Reference.convertFrames, hr, if_true, hrequested, hmix, hresampler', hresampler, hnone,
        Option.bind_eq_bind, Option.bind_some]
      rfl
    · right
      obtain ⟨wr_buf, hfill, hlength', hprefix⟩ := @Cells.fill_front _ er'.wr_buf
        (produced.map some) (by rw [List.length_map]; lia)
      have hcreated : (!er'.resampler && !creates) = false := by
        rw [hresampler', hresampler]
        cases hres : er.resampler <;> cases hcre : creates <;> simp_all
      refine ⟨fun hnot => hmissing hnot.2, { er' with
        wr_buf := wr_buf
        resampler := true }, ?_, { hholds with wrSize := hlength'.trans hholds.wrSize }, hsize'.trans hsize, ?_⟩
      · simp only [Reference.convertFrames, hr, if_true, hrequested, hmix, hcreated, hfill, Config.frames,
          Option.bind_eq_bind, Option.bind_some, Bool.false_eq_true, if_false]
        rfl
      · rw [Config.frames, hr]
        exact hprefix

/-- A write that fits gives its frames to the stream. -/
theorem write_spec (h : Holds c er q) {b : Written} {creates : Bool} {produced : List Frame}
    (hproper : Proper c (.write b creates produced)) (hfits : er.Fits c (.write b creates produced)) :
    ∃ out er' q', World.call c er (.write b creates produced) = some (out, er') ∧
      Serves c q (.write b creates produced) out q' ∧ Holds c er' q' := by
  rw [World.call, Reference.echo_reference_write]
  have hzero : (b.time_stamp = .zero ∧ er.wr_render_time = .zero) ↔
      (b.time_stamp = .zero ∧ q.stamped = false) := by
    rw [h.stamped, decide_eq_false_iff_not, not_ne_iff]
  by_cases hstamp : b.time_stamp = .zero ∧ er.wr_render_time = .zero
  · rw [if_pos hstamp]
    exact ⟨_, er, q, rfl, .unstamped creates produced (hzero.mp hstamp), h⟩
  rw [if_neg hstamp]
  have hstamp' := mt hzero.mpr hstamp
  cases hread : er.reading with
  | false =>
    have hread' := h.reading.symm.trans hread
    exact ⟨_, _, _, rfl, .unread creates produced hstamp' hread', { h with
      reading := hread'.symm
      writing := rfl }⟩
  | true =>
    have hread' := h.reading.symm.trans hread
    obtain ⟨hresample, hroom⟩ := (hfits.resolve_left hstamp).resolve_left (by rw [hread]; decide)
    -- the state before the frames are looked at
    have hstart : Holds c { er with
          reading := true
          writing := true
          wr_render_time := b.time_stamp
          playback_delay := b.delay_ns }
        { q with
          writing := true
          stamped := b.time_stamp ≠ .zero } := { h with
      reading := hread'.symm
      writing := rfl
      stamped := rfl }
    by_cases hconverts : c.downmixes = true ∨ c.resamples = true
    · have hcond : (c.downmixes || c.resamples) = true := Bool.or_eq_true_iff.mpr hconverts
      rcases convertFrames_spec hstart hconverts hproper hresample with
        ⟨hr, -, rfl, er', hconvert, hholds⟩ | ⟨hnot, er', hconvert, hholds, hsize, hprefix⟩
      · refine ⟨.status (-ENODEV), er', _, ?_, .noResampler produced hstamp' hread' hr, ?_⟩
        · simp only [hcond, Bool.not_true, Bool.false_eq_true, if_false, if_true, hconvert, Option.bind_eq_bind,
            Option.bind_some]
          rfl
        · rw [Stream.append, List.append_nil, List.append_nil]
          exact hholds
      · have hlevel : er'.frames_in = er.frames_in := hholds.level.trans h.level.symm
        have hlength : (c.frames b produced).length =
            (if c.resamples then produced.length else b.raw.length) := by
          rw [Config.frames]
          split <;> simp
        have hfit := hroom.resolve_left hnot
        rw [← hlength, ← hlevel] at hfit
        obtain ⟨er'', happend, hholds'⟩ := appendFrames_spec hholds hprefix (hsize ▸ hfit)
        refine ⟨.status 0, er'', _, ?_, .write creates produced hstamp' hread', hholds'⟩
        simp only [hcond, Bool.not_true, Bool.false_eq_true, if_false, if_true, hconvert, happend,
          Option.bind_eq_bind, Option.bind_some]
        rfl
    · obtain ⟨hmix, hr⟩ := not_or.mp hconverts
      rw [Bool.not_eq_true] at hmix hr
      have hframes : c.frames b produced = b.raw.map c.convert := by
        rw [Config.frames, hr]
        rfl
      have hfit := hroom.resolve_left (by rw [hr]; exact fun hnot => Bool.noConfusion hnot.1)
      rw [hr] at hfit
      have hsrc : (c.frames b produced).map some <+: b.raw.map fun frame => some (c.convert frame) := by
        rw [hframes, List.map_map]
        exact List.prefix_rfl
      have hlength : (c.frames b produced).length = b.raw.length := by
        rw [hframes, List.length_map]
      obtain ⟨er', happend, hholds⟩ := appendFrames_spec hstart hsrc (by rw [hlength]; exact hfit)
      refine ⟨.status 0, er', _, ?_, .write creates produced hstamp' hread', hholds⟩
      rw [hlength] at happend
      simp only [hmix, hr, Bool.or_self, Bool.not_true, Bool.false_eq_true, if_false, happend,
        Option.bind_eq_bind, Option.bind_some]
      rfl

/-! ## Reading -/

theorem toInt64_eq {x : ℤ} (hlow : -2 ^ 63 ≤ x) (hhigh : x < 2 ^ 63) : toInt64 x = x :=
  Int.bmod_eq_of_le (by omega) (by omega)

theorem toInt32_eq {x : ℤ} (hlow : -2 ^ 31 ≤ x) (hhigh : x < 2 ^ 31) : toInt32 x = x :=
  Int.bmod_eq_of_le (by omega) (by omega)

theorem toInt64_lt (x : ℤ) : toInt64 x < 2 ^ 63 := by
  have hlt := Int.bmod_lt (x := x) (m := 2 ^ 64) (by decide)
  rw [toInt64]
  omega

theorem expectedDelayNs_lt {b : Wanted} {rsmp_delay expected : ℤ}
    (h : expected ∈ er.expectedDelayNs c b rsmp_delay) : expected < 2 ^ 63 := by
  rw [Reference.expectedDelayNs] at h
  split at h
  · cases h
  · rw [Option.mem_some_iff] at h
    rw [← h]
    split <;> exact toInt64_lt _

theorem expectedDelayNs_stamped (h : Holds c er q) {b : Wanted} {rsmp_delay expected : ℤ}
    (hmem : expected ∈ er.expectedDelayNs c b rsmp_delay) : q.stamped = true ∧ b.time_stamp ≠ .zero := by
  rw [Reference.expectedDelayNs] at hmem
  split at hmem
  · cases hmem
  · next hnot =>
    obtain ⟨hrender, hstamp⟩ := not_or.mp hnot
    exact ⟨by rw [h.stamped, decide_eq_true hrender], hstamp⟩

/-- A level above the fill level is reached with silence. -/
theorem holds_raised (h : Holds c er q) (hle : er.frames_in ≤ n) (hbytes : n * c.rd_frame_size < 2 ^ c.wordBits)
    (hroom : n ≤ er.buf_size) :
    ∃ buffer, Cells.fill er.buffer (c.span er.frames_in)
        (List.replicate (c.span (n - er.frames_in)) (some c.silence)) = some buffer ∧
      Holds c { er with
          buffer := buffer
          frames_in := n }
        { q with pending := q.pending ++ List.replicate (n - q.pending.length) c.silence } := by
  have hat : c.span er.frames_in = (q.pending.map some).length := by
    rw [Config.span_eq (Config.bytes_mono h.fits h.bytes), h.level, List.length_map]
  have hcount : c.span (n - er.frames_in) = n - q.pending.length := by
    rw [Config.span_eq (Config.bytes_mono (Nat.sub_le _ _) hbytes), h.level]
  obtain ⟨buffer, hfill, hlength, hprefix⟩ := @Cells.fill_append _ _ _
    (List.replicate (n - q.pending.length) (some c.silence)) h.pending (by
      rw [List.length_map, List.length_replicate, h.size, ← h.level]
      omega)
  refine ⟨buffer, by rw [hat, hcount]; exact hfill, { h with
    size := hlength.trans h.size
    fits := hroom
    level := ?_
    pending := ?_ }⟩
  · have hlevel := h.level
    simp only [List.length_append, List.length_replicate]
    omega
  · rw [List.map_append, List.map_replicate]
    exact hprefix

/-- The buffer gets room for the frames. -/
theorem holds_grown (h : Holds c er q) (hle : er.frames_in ≤ n) (hbytes : n * c.rd_frame_size < 2 ^ c.wordBits) :
    Holds c { er with
      buf_size := n
      buffer := Cells.resize none er.buffer (c.span n) } q := by
  rw [Config.span_eq hbytes]
  exact { h with
    size := Cells.resize_length
    bytes := hbytes
    fits := hle
    pending := Cells.resize_prefix h.pending (by rw [List.length_map, ← h.level]; exact hle) }

theorem fillUp_spec (h : Holds c er q) (hbytes : n * c.rd_frame_size < 2 ^ c.wordBits) :
    ∃ er', er.fillUp c n = some er' ∧ n ≤ er'.frames_in ∧
      Holds c er' { q with pending := q.pending ++ List.replicate (n - q.pending.length) c.silence } := by
  rw [Reference.fillUp]
  by_cases hshort : er.frames_in < n
  · rw [if_pos hshort]
    by_cases hsmall : n > er.buf_size
    · obtain ⟨buffer, hfill, hholds⟩ := holds_raised (holds_grown h (Nat.le_of_lt hshort) hbytes)
        (Nat.le_of_lt hshort) hbytes le_rfl
      exact ⟨_, by simp only [if_pos hsmall, hfill, Option.map_some], le_rfl, hholds⟩
    · obtain ⟨buffer, hfill, hholds⟩ := holds_raised h (Nat.le_of_lt hshort) hbytes (Nat.le_of_not_lt hsmall)
      exact ⟨_, by simp only [if_neg hsmall, hfill, Option.map_some], le_rfl, hholds⟩
  · rw [if_neg hshort]
    have hlevel := h.level
    rw [show n - q.pending.length = 0 by omega, List.replicate_zero, List.append_nil]
    exact ⟨er, rfl, Nat.le_of_not_lt hshort, h⟩

theorem takeFrames_spec (h : Holds c er q) (hle : n ≤ er.frames_in) :
    ∃ er', er.takeFrames c n = some ((q.pending.take n).map some, er') ∧
      Holds c er' { q with
        pending := q.pending.drop n
        returned := q.returned ++ q.pending.take n } := by
  have hlevel := h.level
  have htake : c.span n = ((q.pending.take n).map some).length := by
    rw [Config.span_eq (Config.bytes_mono (hle.trans h.fits) h.bytes), List.length_map, List.length_take]
    omega
  have hdrop : c.span (er.frames_in - n) = ((q.pending.drop n).map some).length := by
    rw [Config.span_eq (Config.bytes_mono ((Nat.sub_le _ _).trans h.fits) h.bytes), List.length_map,
      List.length_drop, h.level]
  have hpending : (q.pending.take n).map some ++ (q.pending.drop n).map some <+: er.buffer := by
    rw [← List.map_append, List.take_append_drop]
    exact h.pending
  have hfront := Cells.slice_front ((List.prefix_append _ _).trans hpending)
  have hrest := Cells.slice_append hpending
  obtain ⟨buffer, hfill, hlength, hprefix⟩ := @Cells.fill_front _ er.buffer
    ((q.pending.drop n).map some) (by
      have hfits := h.fits
      rw [List.length_map, List.length_drop, h.size]
      omega)
  refine ⟨{ er with
    buffer := buffer
    frames_in := er.frames_in - n }, ?_, { h with
      size := hlength.trans h.size
      fits := (Nat.sub_le _ _).trans h.fits
      level := by rw [List.length_drop, h.level]
      pending := hprefix }⟩
  simp only [Reference.takeFrames, htake, hdrop, hfront, hrest, hfill, Option.bind_eq_bind, Option.bind_some]
  rfl

/-- The level of the delay correction, and on which side of the fill level it is. -/
structure Target (c : Config) (er : Reference) (expected deltaNs : ℤ) (n : ℕ) : Prop where
  level : Reference.level c expected = n
  pos : 0 < expected
  product : expected * c.rd_sampling_rate < 2 ^ 63
  bytes : n * c.rd_frame_size < 2 ^ c.wordBits
  above : (n : ℤ) - er.frames_in < 2 ^ 31
  below : (er.frames_in : ℤ) - n < 2 ^ 31
  up : deltaNs < 0 → er.frames_in ≤ n
  down : 0 ≤ deltaNs → n ≤ er.frames_in

/-- The state of the smoothing does not matter. -/
theorem Holds.counted (h : Holds c er q) (count : ℕ) (sign : ℤ) :
    Holds c { er with
      delta_count := count
      prev_delta_sign := sign } q := { h with }

namespace Target

variable {expected deltaNs : ℤ}

variable (ht : Target c er expected deltaNs n)

include ht

theorem counted (count : ℕ) (sign : ℤ) :
    Target c { er with
      delta_count := count
      prev_delta_sign := sign } expected deltaNs n := { ht with }

/-- The numbers of frames that the code computes. -/
theorem computed :
    c.toSize ((toInt64 (expected * c.rd_sampling_rate)).tdiv 1000000000) = n ∧
      toInt32 ((n : ℤ) - er.frames_in) = n - er.frames_in := by
  have hnonneg : 0 ≤ expected * (c.rd_sampling_rate : ℤ) := Int.mul_nonneg ht.pos.le (Int.natCast_nonneg _)
  have hlevel := ht.level
  have hbelow := ht.below
  have hlt : (n : ℤ) < 2 ^ c.wordBits := by
    exact_mod_cast Config.frames_lt ht.bytes
  constructor
  · rw [Reference.level] at hlevel
    rw [toInt64_eq (by omega) ht.product, Int.tdiv_eq_ediv_of_nonneg hnonneg, hlevel, Config.toSize,
      Int.emod_eq_of_lt (Int.natCast_nonneg n) hlt, Int.toNat_natCast]
  · exact toInt32_eq (by omega) ht.above

/-- Silence is added at the end of a buffer with room for it. -/
theorem addSilence (h : Holds c er q) (hle : er.frames_in ≤ n)
    (hroom : n ≤ er.buf_size) :
    ∃ er', (if (n : ℤ) - er.frames_in > 0 then
        (Cells.fill er.buffer (c.span er.frames_in)
          (List.replicate (c.span ((n : ℤ) - er.frames_in).toNat) (some c.silence))).bind fun buffer =>
            some ({ er with
              buffer := buffer
              frames_in := n } : Reference)
      else some { er with frames_in := n }) = some er' ∧ Holds c er' (q.moved c.silence n) := by
  have hlevel := h.level
  have hmoved : q.moved c.silence n =
      { q with pending := q.pending ++ List.replicate (n - q.pending.length) c.silence } := by
    rw [Stream.moved, show q.pending.length - n = 0 by omega, List.drop_zero]
  rw [hmoved]
  by_cases hmore : (n : ℤ) - er.frames_in > 0
  · obtain ⟨buffer, hfill, hholds⟩ := holds_raised h hle ht.bytes hroom
    have htoNat : ((n : ℤ) - er.frames_in).toNat = n - er.frames_in := by omega
    rw [if_pos hmore, htoNat]
    exact ⟨_, by rw [hfill, Option.bind_some], hholds⟩
  · have heq : n = er.frames_in := by omega
    rw [if_neg hmore, show n - q.pending.length = 0 by omega, List.replicate_zero, List.append_nil, heq]
    exact ⟨_, rfl, h⟩

/-- Less is in the buffer than expected. -/
theorem moveUp (h : Holds c er q) (hup : deltaNs < 0) :
    ∃ er', er.moveLevel c expected deltaNs = some er' ∧ Holds c er' (q.moved c.silence n) := by
  obtain ⟨hset, hoffset⟩ := ht.computed
  have hle := ht.up hup
  rw [Reference.moveLevel]
  simp only [hset, hoffset, if_pos hup]
  by_cases hsmall : n > er.buf_size
  · have htarget : Target c { er with
        buf_size := n
        buffer := Cells.resize none er.buffer (c.span n) } expected deltaNs n := { ht with }
    obtain ⟨er', hstep, hholds⟩ := htarget.addSilence (holds_grown h hle ht.bytes) hle le_rfl
    refine ⟨er', ?_, hholds⟩
    rw [← hstep]
    simp only [if_pos hsmall]
    rfl
  · obtain ⟨er', hstep, hholds⟩ := ht.addSilence h hle (Nat.le_of_not_lt hsmall)
    refine ⟨er', ?_, hholds⟩
    rw [← hstep]
    simp only [if_neg hsmall]
    rfl

/-- More is in the buffer than expected: the oldest frames go. -/
theorem moveDown (h : Holds c er q) (hdown : ¬ deltaNs < 0) :
    ∃ er', er.moveLevel c expected deltaNs = some er' ∧ Holds c er' (q.moved c.silence n) := by
  obtain ⟨hset, hoffset⟩ := ht.computed
  have hle := ht.down (Int.not_lt.mp hdown)
  have hlevel := h.level
  have hmoved : q.moved c.silence n = { q with pending := q.pending.drop (er.frames_in - n) } := by
    rw [Stream.moved, show n - q.pending.length = 0 by lia, List.replicate_zero, List.append_nil, hlevel]
  have hneg : toInt32 (-((n : ℤ) - er.frames_in)) = (er.frames_in - n : ℕ) := by
    have hbelow := ht.below
    rw [toInt32_eq (by lia) (by lia)]
    lia
  rw [Reference.moveLevel, hmoved]
  simp only [hset, hoffset, if_neg hdown, hneg]
  by_cases hless : ((er.frames_in - n : ℕ) : ℤ) > 0
  · have hspan : c.span (er.frames_in - n) = ((q.pending.take (er.frames_in - n)).map some).length := by
      rw [Config.span_eq (Config.bytes_mono ((Nat.sub_le _ _).trans h.fits) h.bytes), List.length_map,
        List.length_take]
      lia
    have hrest : c.span n = ((q.pending.drop (er.frames_in - n)).map some).length := by
      rw [Config.span_eq ht.bytes, List.length_map, List.length_drop]
      lia
    have hslice := @Cells.slice_append _ er.buffer ((q.pending.take (er.frames_in - n)).map some)
      ((q.pending.drop (er.frames_in - n)).map some) (by
        rw [← List.map_append, List.take_append_drop]
        exact h.pending)
    obtain ⟨buffer, hfill, hlength, hprefix⟩ := @Cells.fill_front _ er.buffer
      ((q.pending.drop (er.frames_in - n)).map some) (by
        have hfits := h.fits
        rw [List.length_map, List.length_drop, h.size]
        lia)
    refine ⟨{ er with
      buffer := buffer
      frames_in := n }, ?_, { h with
        size := hlength.trans h.size
        fits := hle.trans h.fits
        level := by
          change n = _
          rw [List.length_drop]
          lia
        pending := hprefix }⟩
    rw [if_pos hless]
    simp only [Int.toNat_natCast, hspan, hrest, hslice, hfill, Option.bind_eq_bind, Option.bind_some]
    rfl
  · have heq : n = er.frames_in := by lia
    rw [if_neg hless, show er.frames_in - n = 0 by lia, List.drop_zero, heq]
    exact ⟨_, rfl, h⟩

theorem move (h : Holds c er q) :
    ∃ er', er.moveLevel c expected deltaNs = some er' ∧ Holds c er' (q.moved c.silence n) := by
  by_cases hsign : deltaNs < 0
  · exact ht.moveUp h hsign
  · exact ht.moveDown h hsign

end Target

/-- A delay that is too short means that the level is above the fill level. -/
theorem target_of_levelFits {expected : ℤ} (hpos : 0 < expected) (hlt : expected < 2 ^ 63)
    (hfits : er.LevelFits c expected) (hcorrects : er.Corrects c expected) :
    ∃ n, Target c er expected (toInt64 (er.delayNs c - expected)) n := by
  obtain ⟨hrate, hframes, hlevel⟩ := hfits
  obtain ⟨hproduct, hbytes, habove, hbelow⟩ := hlevel hcorrects
  have hrate' : (0 : ℤ) < c.rd_sampling_rate := by omega
  have hdelay : er.delayNs c = er.frames_in * 1000000000 / c.rd_sampling_rate := by
    rw [Reference.delayNs, toInt64_eq (by omega) hframes, Int.tdiv_eq_ediv_of_nonneg (by omega)]
  have hdelay_nonneg : 0 ≤ er.delayNs c := by
    rw [hdelay]
    exact Int.ediv_nonneg (by omega) hrate'.le
  have hdelay_lt : er.delayNs c < 2 ^ 63 := by
    rw [hdelay]
    exact lt_of_le_of_lt (Int.ediv_le_self _ (by omega)) hframes
  have hdelta : toInt64 (er.delayNs c - expected) = er.delayNs c - expected :=
    toInt64_eq (by omega) (by omega)
  have hnonneg : 0 ≤ Reference.level c expected :=
    Int.ediv_nonneg (Int.mul_nonneg hpos.le hrate'.le) (by decide)
  obtain ⟨n, hn⟩ := Int.eq_ofNat_of_zero_le hnonneg
  rw [hn] at habove hbelow hbytes
  refine ⟨n, hn, hpos, hproduct, by exact_mod_cast hbytes, habove, hbelow, ?_, ?_⟩
  · rw [hdelta, hdelay]
    intro hneg
    have hmul : (er.frames_in : ℤ) * 1000000000 < expected * c.rd_sampling_rate :=
      Int.lt_mul_of_ediv_lt hrate' (by omega)
    have hle : (er.frames_in : ℤ) ≤ Reference.level c expected :=
      Int.le_ediv_of_mul_le (by decide) hmul.le
    omega
  · rw [hdelta, hdelay]
    intro hnn
    have hmul : expected * c.rd_sampling_rate ≤ er.frames_in * 1000000000 :=
      Int.mul_le_of_le_ediv hrate' (by omega)
    have hle : Reference.level c expected ≤ er.frames_in :=
      Int.ediv_le_of_le_mul (by decide) hmul
    omega

/-- The correction leaves the stream as it is or moves its level. -/
theorem correctDelay_spec (h : Holds c er q) {expected : ℤ} (hlt : expected < 2 ^ 63)
    (hfits : 0 < expected → er.LevelFits c expected) :
    ∃ er' q', er.correctDelay c expected = some er' ∧ Holds c er' q' ∧
      (q' = q ∨ ∃ level, q' = q.moved c.silence level) := by
  rw [Reference.correctDelay]
  by_cases hpos : expected > 0
  · have hlevel := hfits hpos
    rw [if_pos hpos, if_neg hlevel.1]
    by_cases hdelta : abs (toInt64 (er.delayNs c - expected)) ≥ MIN_DELAY_DELTA_NS
    · simp only [if_pos hdelta]
      by_cases hcount : er.nextDeltaCount (if toInt64 (er.delayNs c - expected) ≥ 0 then 1 else -1) > MIN_DELTA_NUM
      · rw [if_pos hcount]
        obtain ⟨n, ht⟩ := target_of_levelFits hpos hlt hlevel ⟨hdelta, hcount⟩
        obtain ⟨er', hmove, hholds⟩ := (ht.counted _ _).move (h.counted _ _)
        exact ⟨er', _, hmove, hholds, .inr ⟨n, rfl⟩⟩
      · rw [if_neg hcount]
        exact ⟨_, q, rfl, h.counted _ _, .inl rfl⟩
    · simp only [if_neg hdelta]
      exact ⟨_, q, rfl, h.counted _ _, .inl rfl⟩
  · rw [if_neg hpos]
    exact ⟨er, q, rfl, h, .inl rfl⟩

/-- A read moves the level only when both time stamps are there. -/
theorem alignDelay_spec (h : Holds c er q) {b : Wanted} {rsmp_delay : ℤ}
    (hfits : ∀ expected ∈ er.expectedDelayNs c b rsmp_delay, 0 < expected → er.LevelFits c expected) :
    ∃ er' q', er.alignDelay c b rsmp_delay = some er' ∧ Holds c er' q' ∧
      (q' = q ∨ (q.stamped = true ∧ b.time_stamp ≠ .zero) ∧ ∃ level, q' = q.moved c.silence level) := by
  rw [Reference.alignDelay]
  cases hdelay : er.expectedDelayNs c b rsmp_delay with
  | none => exact ⟨er, q, rfl, h, .inl rfl⟩
  | some expected =>
    obtain ⟨er', q', hstep, hholds, hmoved⟩ :=
      correctDelay_spec h (expectedDelayNs_lt hdelay) (hfits expected hdelay)
    refine ⟨er', q', hstep, hholds, hmoved.imp_right fun hlevel => ⟨?_, hlevel⟩⟩
    exact expectedDelayNs_stamped h hdelay

/-!
## Runs of the echo reference

In a run of calls that fit, no access is out of bounds, the fill level stays within the buffer, and
what the reader gets are the frames of the writer in order. The first write after the reader has
started does not fit: the growth of the buffer is commented out.
-/

variable {c : Config} {er : Reference} {q : Stream}

/-- A read whose correction does not overflow takes its frames from the stream. -/
theorem read_spec (h : Holds c er q) {b : Wanted} {rsmp_delay : ℤ} (hproper : Proper c (.read b rsmp_delay))
    (hfits : er.Fits c (.read b rsmp_delay)) :
    ∃ out er' q', World.call c er (.read b rsmp_delay) = some (out, er') ∧
      Serves c q (.read b rsmp_delay) out q' ∧ Holds c er' q' := by
  have hstart := h.startRead
  have hwriting := h.writing
  rw [World.call, Reference.echo_reference_read]
  cases hw : er.writing with
  | false =>
    have hoff : er.startRead.writing = false := (startRead_writing er).trans hw
    refine ⟨_, er.startRead, q.started, ?_, .idle b rsmp_delay (hwriting.symm.trans hw), hstart⟩
    simp only [hoff, Bool.not_false, if_true]
    rfl
  | true =>
    obtain ⟨hrate, hexpected⟩ := hfits.resolve_left (by rw [hw]; decide)
    have hon : er.startRead.writing = true := (startRead_writing er).trans hw
    have hdivides : ¬ (er.startRead.frames_in < b.frame_count ∧ c.rd_sampling_rate = 0) :=
      fun hzero => hrate hzero.1 hzero.2
    obtain ⟨er₁, q₁, hstep, hholds, hmoved⟩ := alignDelay_spec hstart hexpected
    obtain ⟨er₂, hfill, hle, hholds₂⟩ := fillUp_spec hholds hproper
    obtain ⟨er₃, htake, hholds₃⟩ := takeFrames_spec hholds₂ hle
    refine ⟨.frames ((q₁.take c.silence b.frame_count).1.map some), er₃,
      (q₁.take c.silence b.frame_count).2, ?_, ?_, hholds₃⟩
    · simp only [hon, Bool.not_true, Bool.false_eq_true, if_false, if_neg hdivides, Option.bind_eq_bind]
      rw [hstep, Option.bind_some, hfill, Option.bind_some, htake]
      rfl
    · rcases hmoved with rfl | ⟨hstamp, level, rfl⟩
      · exact .read b rsmp_delay (hwriting.symm.trans hw)
      · exact .corrected b rsmp_delay level (hwriting.symm.trans hw) hstamp

namespace World

theorem call_spec (h : Holds c er q) {op : Call} (hproper : Proper c op) (hfits : er.Fits c op) :
    ∃ out er' q', call c er op = some (out, er') ∧ Serves c q op out q' ∧ Holds c er' q' := by
  cases op with
  | stopWrite => exact ⟨_, _, _, rfl, .stopWrite q, h.stopWrite⟩
  | stopRead => exact ⟨_, _, _, rfl, .stopRead q, h.stopRead⟩
  | write b creates produced => exact write_spec h hproper hfits
  | read b rsmp_delay => exact read_spec h hproper hfits

theorem run_calls {w w' : World} {calls : List Call} (h : Machine.run (step c) w calls = some w') :
    w'.log.map Prod.fst = w.log.map Prod.fst ++ calls := by
  induction calls generalizing w with
  | nil =>
    cases h
    exact (List.append_nil _).symm
  | cons op calls ih =>
    obtain ⟨m, hm, hrest⟩ := Machine.run_cons_some.mp h
    obtain ⟨r, -, rfl⟩ := Option.map_eq_some_iff.mp hm
    rw [ih hrest, List.map_append, List.append_assoc]
    rfl

/-- For every accepted configuration and every run of calls that fit: no copy and no fill is out of
bounds, `buf_size` is what is allocated and the fill level is within it, the answers are those of a
stream, and the frames returned and pending in a stream are the written ones in order. -/
theorem echo_reference_inOrder {wordBits : {w : ℕ // 32 ≤ w}} {rdFormat rdChannelCount rdSamplingRate wrFormat
      wrChannelCount wrSamplingRate : BitVec 32} {c : Config}
    (_hcreate : create_echo_reference wordBits rdFormat rdChannelCount rdSamplingRate wrFormat wrChannelCount
      wrSamplingRate = some c) {calls : List Call} (hok : Machine.Along (step c) (Allowed c) new calls) :
    ∃ w q, Machine.run (step c) new calls = some w ∧ w.log.map Prod.fst = calls ∧ Conforms c w.log q ∧
      q.InOrder c.silence ∧ w.er.frames_in ≤ w.er.buf_size ∧ w.er.buffer.length = w.er.buf_size := by
  have hstep : ∀ w op, w.Allowed c op → (∃ q, Conforms c w.log q ∧ Holds c w.er q) →
      ∃ w', step c w op = some w' ∧ ∃ q, Conforms c w'.log q ∧ Holds c w'.er q := by
    rintro w op ⟨hproper, hfits⟩ ⟨q, hconforms, hholds⟩
    obtain ⟨out, er', q', hcall, hserves, hholds'⟩ := call_spec hholds hproper hfits
    exact ⟨⟨er', w.log ++ [(op, out)]⟩, by rw [step, hcall]; rfl, q', hconforms.snoc hserves, hholds'⟩
  obtain ⟨w, hrun, q, hconforms, hholds⟩ := hok.exists_run hstep ⟨.new, .nil, Holds.new⟩
  exact ⟨w, q, hrun, (run_calls hrun).trans (List.nil_append calls), hconforms, hconforms.inOrder,
    hholds.fits, hholds.size⟩

/-- Stereo at 16 kHz is written, mono at 16 kHz is read. -/
def narrow : Config where
  rd_channel_count := 1
  rd_sampling_rate := 16000
  wr_sampling_rate := 16000
  wordBits := 32
  channels := .inl rfl
  wide := by decide

/-- The writer begins before the reader, whose first read is short; then two frames fit, the next read is
short again, and the writer stops. -/
def fittingCalls : List Call :=
  [.write ⟨[], 0, ⟨1, 0⟩⟩ false [], .read ⟨3, 0, ⟨1, 0⟩⟩ 0, .write ⟨[(6#16, 2#16), (1#16, 1#16)], 5000000, ⟨2, 0⟩⟩ false [],
    .read ⟨1, 0, ⟨2, 0⟩⟩ 0, .read ⟨2, 0, .zero⟩ 0, .stopWrite, .read ⟨1, 0, ⟨3, 0⟩⟩ 0, .stopRead]

theorem echo_reference_inOrder_narrow :
    ∃ w q, Machine.run (step narrow) new fittingCalls = some w ∧ w.log.map Prod.fst = fittingCalls ∧
      Conforms narrow w.log q ∧ q.InOrder narrow.silence ∧ w.er.frames_in ≤ w.er.buf_size ∧
      w.er.buffer.length = w.er.buf_size :=
  @echo_reference_inOrder ⟨32, by decide⟩ 1#32 1#32 16000#32 1#32 2#32 16000#32 narrow rfl fittingCalls
    (by decide +kernel)

/-- The reader starts, which frees the buffer; the first write with a time stamp is copied to it. -/
theorem echo_reference_write_unallocated :
    create_echo_reference ⟨32, by decide⟩ 1#32 1#32 16000#32 1#32 2#32 16000#32 = some narrow ∧
      Machine.run (step narrow) new
        [.read ⟨1, 0, ⟨1, 0⟩⟩ 0, .write ⟨[(6#16, 2#16)], 0, ⟨1, 0⟩⟩ false []] = none := by
  refine ⟨rfl, ?_⟩
  rw [← Option.isNone_iff_eq_none]
  decide +kernel

end World

end AudioFlinger.EchoReference
