import JMEngine.Net.Reader

/-!
# Streams of whole frames that never fill the read buffer

The handled offset only goes back to `0` above `n/2 + 1`, so the room for a frame is what is left
behind the offset at which it starts (`startAfter`), not the whole buffer.

* `Fits n fs`        every frame of `fs` ends inside the buffer from where it starts;
* `progress_iff`     no cut of the stream leaves a full buffer after a drain loop exactly when the
                     frames fit;
* `fits_of_half`     frames of at most `n - n/2 - 1` bytes always fit.
-/

set_option linter.unusedSectionVars false

namespace JMEngine.Net
open Bytes Framing Runs

def Fits (n : Nat) (fs : List (List UInt8)) : Prop :=
  ∀ pre f post, fs = pre ++ f :: post → startAfter n 0 pre + f.length ≤ n

theorem fits_of_half (n : Nat) (fs : List (List UInt8))
    (h : ∀ f ∈ fs, f.length + (n / 2 + 1) ≤ n) : Fits n fs := by
  intro pre f post e
  have h1 := startAfter_low n 0 pre (Nat.zero_le _)
  have h2 := h f (by rw [e]; simp)
  omega

theorem frames_whole (fs : List (List UInt8)) (hw : ∀ f ∈ fs, wireFramer.Whole f) :
    wireFramer.frames fs.flatten = fs ∧ wireFramer.rest fs.flatten = [] := by
  have h := wireFramer.decode_flatten fs hw [] (fun k hk => by cases hk)
  rw [List.append_nil] at h
  exact h

theorem whole_lt {f : List UInt8} (h : wireFramer.Whole f) : 14 ≤ f.length ∧ f.length < 2147483648 := by
  obtain ⟨h1, h2⟩ := whole_iff.mp h
  have h3 := (int32_range (leNat (f.take 4))).2
  have h4 : int32 (leNat (f.take 4)) = f.length := h2
  omega

theorem received_reads (cs : List (List UInt8)) : ∀ s t,
    exec Reader.step s (cs.map .read) = some t → t.received = s.received ++ cs.flatten := by
  induction cs with
  | nil =>
    intro s t h
    have e : s = t := Option.some.inj h
    rw [e, List.flatten_nil, List.append_nil]
  | cons c cs ih =>
    intro s t h
    obtain ⟨s1, h1, h2⟩ := exec_cons_some Reader.step h
    obtain ⟨_, rfl⟩ := Reader.step_read h1
    rw [ih _ t h2, List.flatten_cons, List.append_assoc]

section
variable (mem : List UInt8) (hn : 14 ≤ mem.length) (hmem : mem.length < 9223372036854775808)
  (fs : List (List UInt8)) (hw : ∀ f ∈ fs, wireFramer.Whole f)

include hn hmem hw in
theorem available_of_fits (hfit : Fits mem.length fs) (cs : List (List UInt8)) (s : Reader)
    (zs : List UInt8) (hz : cs.flatten ++ zs = fs.flatten)
    (hG : Guarded Reader.step Reader.Bounded (Reader.new mem) (cs.map .read))
    (hs : exec Reader.step (Reader.new mem) (cs.map .read) = some s) :
    0 < s.buff.getAvailableBufferSize := by
  have hI := Reader.run_inv mem hmem _ s hG hs
  have hr : s.received = cs.flatten := received_reads cs _ s hs
  obtain ⟨gs, hs', t, e1, e2, e3, e4⟩ := wireFramer.split_part fs hw cs.flatten zs hz
  have ht : wireFramer.Stuck t := fun k hk => by rw [e3] at hk; cases hk
  obtain ⟨d1, d2⟩ := wireFramer.decode_flatten gs
    (fun f hf => hw f (by rw [e1]; exact List.mem_append_left _ hf)) t ht
  rw [hI.tracks.available, hr, e2, d1, d2]
  cases hs' with
  | nil =>
    have e : t = [] := (List.append_eq_nil_iff.mp e4).1
    have := startAfter_low mem.length 0 gs (Nat.zero_le _)
    rw [e, List.length_nil]
    omega
  | cons f post =>
    have hf := hfit gs f post e1
    have hwf := hw f (by rw [e1]; simp)
    have hlt : t.length < f.length := by
      by_contra hc
      rw [List.flatten_cons] at e4
      have h1 : t = f ++ t.drop f.length := by
        have e : (t ++ zs).take f.length = f := by rw [e4, List.take_left]
        rw [List.take_append_of_le_length (by omega)] at e
        conv_lhs => rw [← List.take_append_drop f.length t, e]
      have h2 := wireFramer.scan_whole_append f (t.drop f.length) hwf
      rw [← h1, e3] at h2
      cases h2
    omega

include hmem hw in
theorem exec_frames (hfit : Fits mem.length fs) :
    Guarded Reader.step Reader.Bounded (Reader.new mem) (fs.map .read) ∧
      ∃ s, exec Reader.step (Reader.new mem) (fs.map .read) = some s := by
  induction fs using List.reverseRecOn with
  | nil => exact ⟨trivial, _, rfl⟩
  | append_singleton pre f ih =>
    have hwp : ∀ g ∈ pre, wireFramer.Whole g := fun g hg => hw g (List.mem_append_left _ hg)
    obtain ⟨hG, s, hs⟩ := ih hwp (fun a g b e => hfit a g (b ++ [f]) (by rw [e]; simp))
    have hI := Reader.run_inv mem hmem _ s hG hs
    have hr : s.received = pre.flatten := received_reads pre _ s hs
    obtain ⟨d1, d2⟩ := frames_whole pre hwp
    have hav : f.length ≤ s.buff.getAvailableBufferSize := by
      have := hfit pre f [] rfl
      rw [hI.tracks.available, hr, d1, d2, List.length_nil]
      omega
    have hb : Reader.Bounded s (.read f) := by
      have := whole_lt (hw f (by simp))
      exact Or.inl (by omega)
    obtain ⟨s', hs'⟩ := Reader.step_read_some s f hav
    rw [List.map_append]
    refine ⟨guarded_append Reader.step hG hs ⟨hb, fun _ _ => trivial⟩, s', ?_⟩
    rw [exec_append Reader.step _ hs]
    exact exec_cons Reader.step [] hs'

include hmem hw in
/-- a frame that does not fit can fill the buffer -/
theorem exists_full (pre : List (List UInt8)) (f : List UInt8) (post : List (List UInt8))
    (e : fs = pre ++ f :: post) (hfit : Fits mem.length pre)
    (hbig : mem.length < startAfter mem.length 0 pre + f.length) :
    ∃ (cs : List (List UInt8)) (s : Reader), cs.flatten <+: fs.flatten ∧
      Guarded Reader.step Reader.Bounded (Reader.new mem) (cs.map .read) ∧
      exec Reader.step (Reader.new mem) (cs.map .read) = some s ∧
      s.exit = .noMessage ∧ s.buff.getAvailableBufferSize = 0 := by
  have hwp : ∀ g ∈ pre, wireFramer.Whole g := fun g hg => hw g (by rw [e]; exact List.mem_append_left _ hg)
  have hwf : wireFramer.Whole f := hw f (by rw [e]; simp)
  obtain ⟨hG, s, hs⟩ := exec_frames mem hmem pre hwp hfit
  have hI := Reader.run_inv mem hmem _ s hG hs
  have hr : s.received = pre.flatten := received_reads pre _ s hs
  obtain ⟨d1, d2⟩ := frames_whole pre hwp
  have hav := hI.tracks.available
  rw [hr, d1, d2, List.length_nil, Nat.add_zero] at hav
  have hl := whole_lt hwf
  obtain ⟨c, u, hcu, hcl, hu⟩ : ∃ c u, f = c ++ u ∧ c.length = s.buff.getAvailableBufferSize ∧ u ≠ [] := by
    refine ⟨f.take s.buff.getAvailableBufferSize, f.drop s.buff.getAvailableBufferSize,
      (List.take_append_drop _ f).symm, ?_, ?_⟩
    · rw [List.length_take]
      omega
    · intro h0
      have := congrArg List.length h0
      rw [List.length_drop, List.length_nil] at this
      omega
  have hmore := wireFramer.scan_part f c u hwf hcu hu
  have hstuck : wireFramer.Stuck c := fun k hk => by rw [hmore] at hk; cases hk
  have hb : Reader.Bounded s (.read c) := by
    have := congrArg List.length hcu
    rw [List.length_append] at this
    exact Or.inl (by omega)
  obtain ⟨s', hs'⟩ := Reader.step_read_some s c (le_of_eq hcl)
  have hG' : Guarded Reader.step Reader.Bounded (Reader.new mem) ((pre ++ [c]).map .read) := by
    rw [List.map_append]
    exact guarded_append Reader.step hG hs ⟨hb, fun _ _ => trivial⟩
  have hrun : exec Reader.step (Reader.new mem) ((pre ++ [c]).map .read) = some s' := by
    rw [List.map_append, exec_append Reader.step _ hs]
    exact exec_cons Reader.step [] hs'
  have hI' := Reader.run_inv mem hmem _ s' hG' hrun
  have hfl : (pre ++ [c]).flatten = pre.flatten ++ c := by simp
  have hr' : s'.received = pre.flatten ++ c := by
    rw [← hfl]
    exact received_reads (pre ++ [c]) _ s' hrun
  obtain ⟨g1, g2⟩ := wireFramer.decode_flatten pre hwp c hstuck
  have hm : ¬ Malformed c := fun hx => by
    rw [show wireFramer.scan c = .bad from scanFrame_bad.mpr hx] at hmore
    cases hmore
  refine ⟨pre ++ [c], s', ⟨u ++ post.flatten, ?_⟩, hG', hrun, ?_, ?_⟩
  · rw [hfl, e, List.flatten_append, List.flatten_cons, hcu]
    simp
  · rw [hI'.exit, hr', g2, if_neg hm]
  · rw [hI'.tracks.available, hr', g1, g2]
    omega

end

/-- **The reader never wedges exactly when the frames fit.**  For a stream of whole frames, none
longer than the buffer: every cut into reads leaves room after each drain loop that ended with
`ReadBufferNoMessage` if and only if every frame ends inside the buffer from where it starts. -/
theorem progress_iff (mem : List UInt8) (hn : 14 ≤ mem.length)
    (hmem : mem.length < 9223372036854775808) (fs : List (List UInt8))
    (hw : ∀ f ∈ fs, wireFramer.Whole f ∧ f.length ≤ mem.length) :
    (∀ (cs : List (List UInt8)) (s : Reader), cs.flatten <+: fs.flatten →
        Guarded Reader.step Reader.Bounded (Reader.new mem) (cs.map .read) →
        exec Reader.step (Reader.new mem) (cs.map .read) = some s → s.exit = .noMessage →
        0 < s.buff.getAvailableBufferSize) ↔
      Fits mem.length fs := by
  have hw' : ∀ f ∈ fs, wireFramer.Whole f := fun f hf => (hw f hf).1
  constructor
  · intro h pre
    -- the shortest prefix after which a frame does not fit can be read frame by frame
    induction hk : pre.length using Nat.strong_induction_on generalizing pre with
    | _ k ih =>
      intro f post e
      by_contra hbig
      have hfit : Fits mem.length pre := by
        intro a g b e'
        refine ih a.length ?_ a rfl g (b ++ f :: post) (by rw [e, e']; simp)
        rw [← hk, e', List.length_append, List.length_cons]
        omega
      obtain ⟨cs, s, h1, h2, h3, h4, h5⟩ :=
        exists_full mem hmem fs hw' pre f post e hfit (by omega)
      have := h cs s h1 h2 h3 h4
      omega
  · intro hfit cs s hcs hG hs _
    obtain ⟨zs, hz⟩ := hcs
    exact available_of_fits mem hn hmem fs hw' hfit cs s zs hz hG hs

/-- frames of 14 and of 15 bytes in a buffer of 40, cut inside the second one -/
theorem progress_half :
    let f : List UInt8 := 14 :: List.replicate 13 0
    let g : List UInt8 := 15 :: List.replicate 14 0
    Fits 40 [f, g] ∧
    ∃ s, exec Reader.step (Reader.new (List.replicate 40 0)) ([f ++ g.take 5].map .read) = some s ∧
      s.buff._handleOffest = 14 ∧ 0 < s.buff.getAvailableBufferSize := by
  intro f g
  have h : (exec Reader.step (Reader.new (List.replicate 40 0)) ([f ++ g.take 5].map .read)).any
      (fun s => decide (s.exit = .noMessage ∧ s.buff._handleOffest = 14)) = true := by decide +kernel
  obtain ⟨s, hs, hd⟩ := (Option.any_eq_true ..).mp h
  obtain ⟨hx, ho⟩ : s.exit = .noMessage ∧ s.buff._handleOffest = 14 := by simpa using hd
  have hw : ∀ x ∈ [f, g], wireFramer.Whole x ∧ x.length ≤ (List.replicate 40 (0 : UInt8)).length := by
    intro x hx
    rcases List.mem_pair.mp hx with rfl | rfl
    · exact ⟨whole_iff.mpr (by decide), by decide⟩
    · exact ⟨whole_iff.mpr (by decide), by decide⟩
  have hfit : Fits 40 [f, g] := by
    refine fits_of_half 40 [f, g] fun x hx => ?_
    rcases List.mem_pair.mp hx with rfl | rfl <;> decide
  have hG : Guarded Reader.step Reader.Bounded (Reader.new (List.replicate 40 0))
      ([f ++ g.take 5].map .read) := ⟨Or.inl (by decide), fun _ _ => trivial⟩
  exact ⟨hfit, s, hs, ho, (progress_iff (List.replicate 40 0) (by decide) (by decide) _ hw).mpr hfit _ s
    (by decide) hG hs hx⟩

/-- A buffer of 28 bytes: behind a frame of 14 bytes only half of the next, of 28 bytes, finds
room, and the buffer is full for good. -/
theorem not_always_progress :
    ¬ ∀ (mem : List UInt8) (fs cs : List (List UInt8)) (s : Reader), 14 ≤ mem.length →
      (∀ f ∈ fs, wireFramer.Whole f ∧ f.length ≤ mem.length) → cs.flatten <+: fs.flatten →
      exec Reader.step (Reader.new mem) (cs.map .read) = some s → s.exit = .noMessage →
      0 < s.buff.getAvailableBufferSize := by
  intro h
  let f : List UInt8 := 14 :: List.replicate 13 0
  let g : List UInt8 := 28 :: List.replicate 27 0
  have hx : (exec Reader.step (Reader.new (List.replicate 28 0)) ([f ++ g.take 14].map .read)).any
      (fun s => decide (s.exit = .noMessage ∧ s.buff.getAvailableBufferSize = 0)) = true := by
    decide +kernel
  obtain ⟨s, hs, hd⟩ := (Option.any_eq_true ..).mp hx
  obtain ⟨h1, h2⟩ : s.exit = .noMessage ∧ s.buff.getAvailableBufferSize = 0 := by simpa using hd
  have hw : ∀ x ∈ [f, g], wireFramer.Whole x ∧ x.length ≤ (List.replicate 28 (0 : UInt8)).length := by
    intro x hx
    rcases List.mem_pair.mp hx with rfl | rfl
    · exact ⟨whole_iff.mpr (by decide), by decide⟩
    · exact ⟨whole_iff.mpr (by decide), by decide⟩
  have := h (List.replicate 28 0) [f, g] [f ++ g.take 14] s (by decide) hw (by decide) hs h1
  omega

end JMEngine.Net
