import WeaverDB.Blob.Spilled

/-! # Streaming a blob to the client (`env/FieldTransfer.c`)

`StreamOutValue` hands each segment to the client's callback until the results of the calls add up to
its length, but every call offers the segment from its first byte. So the client gets the blob iff each
accepted part is what stands at its place (`SegmentFits`).
-/

namespace WeaverDB.Blob
open Foundations List Int Tuples

inductive Transfer where
  | data (offered : List UInt8) (result : Int)
  | close
deriving DecidableEq

structure Streaming where
  result : Int
  calls : List Transfer
deriving DecidableEq

section

variable (answer : Nat → Nat → Int)

/-- `answer k n` is the result of call `k` on `n` bytes; a negative one ends `StreamOutValue`. -/
def sendSegment (buffer : List UInt8) : Nat → Int → Streaming → Option (Streaming × Bool)
  | 0, _, _ => none
  | fuel + 1, sent, s =>
    if sent < buffer.length then
      let result := answer s.calls.length buffer.length
      let s' : Streaming := ⟨result, s.calls ++ [.data buffer result]⟩
      if result < 0 then some (s', false) else sendSegment buffer fuel (sent+result) s'
    else some (s, true)

variable (cfg : Config) (satisfies : ItemPointerData → Bool)

def bufSz : Nat := cfg.sizeofMaxTupleBlob*5

def streamSegments (rel : BlobRelation) : Nat → ReadPipeline → Streaming → Option (Streaming × Bool)
  | 0, _, _ => none
  | fuel + 1, pipe, s =>
    match readPipelineSegmentBlob cfg rel satisfies (2 * bufSz cfg + 2) pipe (bufSz cfg) with
    | none => none
    | some (false, _, _) => some (s, true)
    | some (true, buffer, pipe) =>
      match sendSegment answer buffer (buffer.length+1) 0 s with
      | some (s, true) => streamSegments rel fuel pipe s
      | ended => ended

def streamOutValue (w : Stores) (fuel : Nat) (val : List UInt8) : Option Streaming :=
  if isIndirect val then
    let header := readBlobHeader val
    let pipe := openReadPipelineBlob ⟨header.blobLength, header.forwardPointer⟩
    (streamSegments answer cfg satisfies (w.rels header.relid) fuel pipe ⟨0, []⟩).map fun s =>
      if s.2 then { s.1 with calls := s.1.calls ++ [.close] } else s.1
  else
    let data := val.drop varhdrsz
    let result := answer 0 data.length
    some ⟨result, [.data data result, .close]⟩

end

def Accepting (answer : Nat → Nat → Int) : Prop := ∀ k n : Nat, 0 < n → 1 ≤ answer k n ∧ answer k n ≤ n

def Streams (content : List UInt8) (calls : List Transfer) : Prop :=
  ∃ sent : List (List UInt8 × Int), calls = sent.map (fun t => .data t.1 t.2) ++ [.close] ∧
    (sent.flatMap fun t => t.1.take t.2.toNat) = content

def results (answer : Nat → Nat → Int) (n : Nat) : Nat → Nat → Nat → List Nat
  | 0, _, _ => []
  | fuel + 1, k, sent =>
    if sent < n then
      (answer k n).toNat :: results answer n fuel (k+1) (sent + (answer k n).toNat)
    else []

def SegmentFits (segment : List UInt8) : Nat → List Nat → Prop
  | _, [] => True
  | sent, r :: rs => segment.take r = (segment.drop sent).take r ∧ SegmentFits segment (sent+r) rs

def FitsAll (answer : Nat → Nat → Int) (size : Nat) : Nat → Nat → List UInt8 → Prop
  | 0, _, content => content = []
  | fuel + 1, k, content =>
    let segment := content.take size
    let rs := results answer segment.length (segment.length+1) k 0
    content = [] ∨ SegmentFits segment 0 rs ∧ FitsAll answer size fuel (k+rs.length) (content.drop size)

def transfers (answer : Nat → Nat → Int) (size : Nat) : Nat → Nat → List UInt8 → List (List UInt8 × Int)
  | 0, _, _ => []
  | fuel + 1, k, content =>
    let segment := content.take size
    let rs := results answer segment.length (segment.length+1) k 0
    if content = [] then []
    else rs.map (segment, ↑·) ++ transfers answer size fuel (k+rs.length) (content.drop size)

def accepted (sent : List (List UInt8 × Int)) : List UInt8 := sent.flatMap fun t => t.1.take t.2.toNat

variable {answer : Nat → Nat → Int} {content : List UInt8} (segment : List UInt8)

theorem results_le (h : Accepting answer) (n fuel k sent : Nat) : ∀ r ∈ results answer n fuel k sent, r ≤ n := by
  induction fuel generalizing k sent with
  | zero => exact fun _ hr => nomatch hr
  | succ fuel ih =>
    unfold results
    split
    · next hlt =>
      have hk := h k n (by omega)
      refine forall_mem_cons.mpr ⟨by omega, ih _ _⟩
    · exact fun _ hr => nomatch hr

theorem le_sum_results (h : Accepting answer) (n fuel k sent : Nat) (hfuel : n ≤ fuel+sent) :
    n ≤ sent + (results answer n (fuel+1) k sent).sum := by
  induction fuel generalizing k sent with
  | zero => omega
  | succ fuel ih =>
    unfold results
    split
    · next hlt =>
      have hk := h k n (by omega)
      have hrest := ih (k+1) (sent + (answer k n).toNat) (by omega)
      rw [sum_cons]
      omega
    · omega

theorem sendSegment_results (h : Accepting answer) (fuel sent : Nat) (s : Streaming)
    (hfuel : segment.length ≤ fuel+sent) :
    ∃ result, sendSegment answer segment (fuel+1) sent s = some (⟨result, s.calls ++
      (results answer segment.length (fuel+1) s.calls.length sent).map (.data segment ↑·)⟩, true) := by
  induction fuel generalizing sent s with
  | zero =>
    rw [sendSegment, results, if_neg (by omega), if_neg (by omega)]
    exact ⟨s.result, by simp⟩
  | succ fuel ih =>
    rw [sendSegment, results]
    by_cases hlt : sent < segment.length
    · have hk := h s.calls.length segment.length (by omega)
      obtain ⟨result, hsend⟩ := ih (sent + (answer s.calls.length segment.length).toNat)
        ⟨answer s.calls.length segment.length,
          s.calls ++ [.data segment (answer s.calls.length segment.length)]⟩ (by omega)
      have hnat : ((answer s.calls.length segment.length).toNat : Int) =
        answer s.calls.length segment.length := toNat_of_nonneg (by omega)
      rw [if_pos (by omega), if_pos hlt, if_neg (by omega), ← hnat, ← natCast_add]
      rw [hnat, hsend]
      simp [hnat]
    · rw [if_neg (by omega), if_neg hlt]
      exact ⟨s.result, by simp⟩

theorem flatMap_take_iff_fits (sent : Nat) (rs : List Nat) (hr : ∀ r ∈ rs, r ≤ segment.length)
    (hsum : segment.length ≤ sent+rs.sum) :
    rs.flatMap (segment.take ·) = segment.drop sent ↔ SegmentFits segment sent rs := by
  induction rs generalizing sent with
  | nil => simpa [SegmentFits] using hsum
  | cons r rs ih =>
    obtain ⟨hle, hr⟩ := forall_mem_cons.mp hr
    rw [sum_cons] at hsum
    have ih := ih (sent+r) hr (by omega)
    have hsplit : segment.drop sent = (segment.drop sent).take r ++ segment.drop (sent+r) := by
      rw [← drop_drop, take_append_drop]
    rw [SegmentFits, ← ih, flatMap_cons]
    constructor
    · intro heq
      have hlen := congrArg List.length heq
      rw [length_append, length_take, length_drop] at hlen
      rw [hsplit] at heq
      exact append_inj heq (by rw [length_take, length_take, length_drop]; omega)
    · rintro ⟨hfirst, hrest⟩
      rw [hfirst, hrest, ← hsplit]

theorem accepted_segment (rs : List Nat) :
    accepted (rs.map fun r : Nat => (segment, (r : Int))) = rs.flatMap (segment.take ·) := by
  simp only [accepted, flatMap_map, toNat_natCast]

theorem length_flatMap_take (rs : List Nat) (hr : ∀ r ∈ rs, r ≤ segment.length) :
    (rs.flatMap (segment.take ·)).length = rs.sum := by
  induction rs with
  | nil => rfl
  | cons r rs ih =>
    obtain ⟨hle, hr⟩ := forall_mem_cons.mp hr
    rw [flatMap_cons, length_append, length_take, ih hr, sum_cons, min_eq_left hle]

theorem le_length_segment (h : Accepting answer) (k : Nat) : segment.length ≤
    ((results answer segment.length (segment.length+1) k 0).flatMap (segment.take ·)).length := by
  rw [length_flatMap_take _ _ (results_le h _ _ _ _)]
  simpa using le_sum_results h segment.length segment.length k 0 (le_rfl)

theorem le_length_accepted (h : Accepting answer) (size fuel k : Nat) (content : List UInt8)
    (hfuel : content.length ≤ size*fuel) :
    content.length ≤ (accepted (transfers answer size fuel k content)).length := by
  induction fuel generalizing k content with
  | zero => omega
  | succ fuel ih =>
    unfold transfers
    by_cases hnil : content = []
    · simp [hnil]
    · have hsegment := le_length_segment (content.take size) h k
      have hrest := ih (k + (results answer (content.take size).length
        ((content.take size).length + 1) k 0).length) (content.drop size)
        (by rw [length_drop, Nat.mul_succ] at *; omega)
      have hsplit := congrArg List.length (take_append_drop size content)
      rw [if_neg hnil, accepted, flatMap_append, length_append, ← accepted, ← accepted, accepted_segment]
      rw [length_append] at hsplit
      omega

theorem accepted_iff_fitsAll (h : Accepting answer) (size fuel k : Nat) (content : List UInt8)
    (hfuel : content.length ≤ size*fuel) :
    accepted (transfers answer size fuel k content) = content ↔ FitsAll answer size fuel k content := by
  induction fuel generalizing k content with
  | zero => exact ⟨fun heq => heq.symm, fun heq => heq.symm⟩
  | succ fuel ih =>
    unfold transfers FitsAll
    by_cases hnil : content = []
    · simp [hnil, accepted]
    · have hfuel' : (content.drop size).length ≤ size*fuel := by
        rw [length_drop]
        rw [Nat.mul_succ] at hfuel
        omega
      rw [if_neg hnil, or_iff_right hnil, accepted, flatMap_append, ← accepted, ← accepted, accepted_segment]
      set segment := content.take size
      set rs := results answer segment.length (segment.length+1) k 0
      have hfits := flatMap_take_iff_fits segment 0 rs (results_le h _ _ _ _) (le_sum_results h _ _ _ _ (le_rfl))
      rw [← hfits, ← ih (k+rs.length) (content.drop size) hfuel', drop_zero]
      constructor
      · intro heq
        have hrest := le_length_accepted h size fuel (k+rs.length) _ hfuel'
        have hsegment : segment.length ≤ (rs.flatMap (segment.take ·)).length := le_length_segment segment h k
        have hlen := congrArg List.length heq
        have hsplit : content = segment ++ content.drop size := (take_append_drop ..).symm
        rw [length_append, congrArg List.length hsplit, length_append] at hlen
        exact append_inj (heq.trans hsplit) (by omega)
      · rintro ⟨hsegment, hrest⟩
        rw [hsegment, hrest]
        exact take_append_drop ..

theorem bufSz_pos (cfg : Config) : 0 < bufSz cfg := mul_pos cfg.size_pos (by decide)

theorem streamSegments_transfers (h : Accepting answer) {cfg : Config} {rel : BlobRelation}
    {satisfies : ItemPointerData → Bool} (hsat : ∀ p, (rel.items p).isSome → satisfies p)
    (fuel : Nat) (pipe : ReadPipeline) (s : Streaming) (content : List UInt8)
    (hpipe : ∃ cached stored, Rest cfg rel pipe cached stored ∧ cached ++ stored = content)
    (hlength : pipe.read + content.length < pipe.length) (hfuel : content.length < fuel) :
    ∃ result, streamSegments answer cfg satisfies rel fuel pipe s = some (⟨result, s.calls ++
      (transfers answer (bufSz cfg) fuel s.calls.length content).map fun t => .data t.1 t.2⟩, true) := by
  induction fuel generalizing pipe s content with
  | zero => omega
  | succ fuel ih =>
    obtain ⟨pipe', hread, hpipe', hlength'⟩ := read_rest hsat pipe hpipe hlength (bufSz_pos cfg) _ (le_rfl)
    unfold streamSegments transfers
    rw [hread]
    by_cases hnil : content = []
    · simp only [hnil, ne_eq, not_true_eq_false, decide_false]
      exact ⟨s.result, by simp⟩
    · have hpos := bufSz_pos cfg
      have hcontent := length_pos_iff.mpr hnil
      obtain ⟨last, hsend⟩ := sendSegment_results (content.take (bufSz cfg)) h
        (content.take (bufSz cfg)).length 0 s (le_rfl)
      simp only [hnil, ne_eq, not_false_eq_true, decide_true, if_false]
      rw [show (0 : Int) = ((0 : Nat) : Int) from rfl, hsend]
      obtain ⟨result, hrest⟩ := ih pipe' ⟨last, s.calls ++ (results answer _ _ s.calls.length 0).map
        (.data (content.take (bufSz cfg)) ↑·)⟩ (content.drop (bufSz cfg)) hpipe' hlength'
        (by rw [length_drop]; omega)
      refine ⟨result, hrest.trans ?_⟩
      simp [Function.comp_def]

theorem streams_iff (sent : List (List UInt8 × Int)) :
    Streams content (sent.map (fun t => .data t.1 t.2) ++ [.close]) ↔ accepted sent = content := by
  constructor
  · rintro ⟨sent', hcalls, haccepted⟩
    have hinj : Function.Injective fun t : List UInt8 × Int => Transfer.data t.1 t.2 := by
      rintro ⟨a, r⟩ ⟨b, q⟩ heq
      injection heq with hab hrq
      exact Prod.ext hab hrq
    rw [hinj.list_map (append_cancel_right hcalls)]
    exact haccepted
  · exact fun haccepted => ⟨sent, rfl, haccepted⟩

/-- The client has the content exactly if what it accepted of a segment stands at its place. -/
theorem streamOutValue_streams_iff (cfg : Config) (w : Stores) (val content : List UInt8)
    (hval : BlobContent cfg w val content) (satisfies : ItemPointerData → Bool)
    (hsat : ∀ relid p, ((w.rels relid).items p).isSome → satisfies p)
    (answer : Nat → Nat → Int) (h : Accepting answer) (fuel : Nat) (hfuel : content.length < fuel) :
    ∃ s, streamOutValue answer cfg satisfies w fuel val = some s ∧ (Streams content s.calls ↔
        if isIndirect val then FitsAll answer (bufSz cfg) fuel 0 content
        else content.length ≤ (answer 0 content.length).toNat) := by
  unfold streamOutValue
  unfold BlobContent at hval
  by_cases hindirect : isIndirect val
  · rw [if_pos hindirect] at hval
    obtain ⟨nodes, hblob⟩ := hval
    have hopen : 0 + content.length < (readBlobHeader val).blobLength := by
      rw [hblob.length, varhdrsz]
      omega
    obtain ⟨result, hstream⟩ := streamSegments_transfers h (hsat _) fuel
      (openReadPipelineBlob ⟨(readBlobHeader val).blobLength, (readBlobHeader val).forwardPointer⟩)
      ⟨0, []⟩ content
      ⟨[], content, ⟨rfl, nodes, hblob.segs, hblob.flatten⟩, nil_append _⟩ hopen hfuel
    rw [if_pos hindirect, if_pos hindirect]
    dsimp only
    rw [hstream]
    refine ⟨_, rfl, ?_⟩
    have hsize : content.length ≤ bufSz cfg * fuel := hfuel.le.trans (Nat.le_mul_of_pos_left _ (bufSz_pos cfg))
    exact (streams_iff _).trans (accepted_iff_fitsAll h _ _ _ _ hsize)
  · rw [if_neg hindirect] at hval
    rw [if_neg hindirect, if_neg hindirect, hval]
    refine ⟨_, rfl, ?_⟩
    refine (streams_iff [(content, answer 0 content.length)]).trans ?_
    simp only [accepted, flatMap_singleton, take_eq_self_iff]

def twoBytes : Stores where
  rels _ :=
    { items := fun p => if p = ⟨0, 1⟩ then some ⟨itemPointerInvalid, [1, 2]⟩ else none
      room := [] }
  xmax _ _ := none

def twoBytesHeader : StoredBlob := ⟨6, ⟨0, 1⟩, 7⟩

theorem twoBytes_content : BlobContent segmentsOfFour twoBytes twoBytesHeader.bytes [1, 2] := by
  refine ⟨[(⟨0, 1⟩, [1, 2])], ⟨?_, by decide, by decide, by decide⟩, fun _ _ => rfl, rfl, rfl⟩
  exact .cons rfl (.nil _)

theorem streamOutValue_streams_two_bytes : ∃ s,
    streamOutValue (fun _ n => n) segmentsOfFour (fun _ => true) twoBytes 3 twoBytesHeader.bytes =
      some s ∧ Streams [1, 2] s.calls := by
  obtain ⟨s, hs, hiff⟩ := streamOutValue_streams_iff segmentsOfFour twoBytes twoBytesHeader.bytes
    [1, 2] twoBytes_content (fun _ => true) (fun _ _ _ => rfl) (fun _ n => n)
    (fun _ _ hn => ⟨ofNat_le.mpr hn, le_refl _⟩) 3 (by decide)
  refine ⟨s, hs, hiff.mpr ?_⟩
  exact .inr ⟨⟨rfl, trivial⟩, .inl rfl⟩

/-- A client that takes one byte at a time gets the first byte twice. -/
theorem streamOutValue_repeats : Accepting (fun _ _ => 1) ∧
    BlobContent segmentsOfFour twoBytes twoBytesHeader.bytes [1, 2] ∧
    ∃ s, streamOutValue (fun _ _ => 1) segmentsOfFour (fun _ => true) twoBytes 3
      twoBytesHeader.bytes = some s ∧ ¬ Streams [1, 2] s.calls := by
  refine ⟨fun _ _ hn => ⟨le_refl _, ofNat_le.mpr hn⟩, twoBytes_content,
    ⟨1, [.data [1, 2] 1, .data [1, 2] 1, .close]⟩, by decide, fun hstreams => ?_⟩
  exact absurd ((streams_iff [([1, 2], 1), ([1, 2], 1)]).mp hstreams) (by decide)

end WeaverDB.Blob
