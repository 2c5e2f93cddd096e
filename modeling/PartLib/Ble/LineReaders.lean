import PartLib.Lib.Cut
import PartLib.Ble.ConsoleLl

/-!
# The two readers of lines

`console_ll_getline` takes a line from `rx_queue`, and `__link_tx` one from `tx_queue`. Both are
modelled here as functions of everything that `xQueueReceive` gives them, a byte or a timeout, one
call after another; `tx_queue` is created. An array that a reader fills has as many bytes as the
reader is asked for.

Both cut the same pieces from a stream (`readers_agree`): up to a newline, a null character, a
timeout, or the size of the array. Only the value that reports an empty piece differs.
-/

namespace PartLib.Ble.LineReaders

/-- What `xQueueReceive` gives, one call after another, where `none` is a timeout. -/
abbrev Outcomes := Stream' (Option UInt8)

/-- What a reader returns, the array after it, and what the next call receives. -/
structure ReadResult where
  rc : ℤ
  buf : List UInt8
  rest : Outcomes

/-- The bytes that a reader has stored, as its return value says. -/
def ReadResult.piece (r : ReadResult) : List UInt8 := r.buf.take r.rc.toNat

/-- The state of a loop when it ends. -/
structure LoopEnd where
  i : ℕ
  buf : List UInt8
  rest : Outcomes

/-- `console_ll_getc (false)`. -/
def consoleLlGetc (rx_queue : Outcomes) : UInt8 × Outcomes :=
  match rx_queue.head with
  | some a_char => (a_char, rx_queue.tail)
  | none => (0, rx_queue.tail)

/-- The loop of `console_ll_getline`, with `todo` passes left until `i` is the size. -/
def getlineLoop : ℕ → List UInt8 → ℕ → Outcomes → LoopEnd
  | 0, data, i, rx_queue => ⟨i, data, rx_queue⟩
  | todo + 1, data, i, rx_queue =>
    let r := consoleLlGetc rx_queue
    if r.1 = 0 then ⟨i, data, r.2⟩
    else if r.1 = newline then ⟨i + 1, data.set i r.1, r.2⟩
    else getlineLoop todo (data.set i r.1) (i + 1) r.2

/-- `console_ll_getline`. -/
def consoleLlGetline (data : List UInt8) (rx_queue : Outcomes) : ReadResult :=
  let l := getlineLoop data.length data 0 rx_queue
  ⟨if l.i = 0 then -1 else l.i, l.buf, l.rest⟩

/-- The loop of `__link_tx`, with `todo` passes left until `i` is the length. -/
def linkTxLoop : ℕ → List UInt8 → ℕ → Outcomes → LoopEnd
  | 0, buf, i, tx_queue => ⟨i, buf, tx_queue⟩
  | todo + 1, buf, i, tx_queue =>
    match tx_queue.head with
    | some tmp =>
      if tmp ≠ 0 then
        if tmp = newline then ⟨i + 1, buf.set i tmp, tx_queue.tail⟩
        else linkTxLoop todo (buf.set i tmp) (i + 1) tx_queue.tail
      else ⟨i, buf, tx_queue.tail⟩
    | none => ⟨i, buf, tx_queue.tail⟩

/-- `__link_tx`. -/
def linkTx (buf : List UInt8) (tx_queue : Outcomes) : ReadResult :=
  let l := linkTxLoop buf.length buf 0 tx_queue
  ⟨l.i, l.buf, l.rest⟩

/-- The calls of a reader, one after another, each with its array, and what is left of the stream. -/
def calls (read : List UInt8 → Outcomes → ReadResult) :
    List (List UInt8) → Outcomes → List ReadResult × Outcomes
  | [], s => ([], s)
  | buf :: bufs, s =>
    let r := read buf s
    (r :: (calls read bufs r.rest).1, (calls read bufs r.rest).2)

/-! ## Both loops make the same cut -/

/-- What a reader does with what it receives. -/
def lineVerdict : Option UInt8 → Verdict UInt8
  | some tmp => if tmp = 0 then .stop else if tmp = newline then .last tmp else .next tmp
  | none => .stop

/-- The two loops do the same. -/
theorem getlineLoop_eq_linkTxLoop (todo : ℕ) (data : List UInt8) (i : ℕ) (s : Outcomes) :
    getlineLoop todo data i s = linkTxLoop todo data i s := by
  induction todo generalizing data i s with
  | zero => rfl
  | succ todo ih =>
    rw [getlineLoop, linkTxLoop, consoleLlGetc]
    cases s.head with
    | none => rfl
    | some tmp =>
      by_cases hnull : tmp = 0
      · simp [hnull]
      · simp [hnull, ih]

/-- The loop appends a piece of the stream to what is written, and leaves the rest. -/
theorem linkTxLoop_spec {todo : ℕ} {buf : List UInt8} {i : ℕ} (h : i + todo ≤ buf.length)
    (s : Outcomes) :
    (linkTxLoop todo buf i s).i = i + (cut lineVerdict todo s).1.length ∧
      (linkTxLoop todo buf i s).buf.take (linkTxLoop todo buf i s).i =
        buf.take i ++ (cut lineVerdict todo s).1 ∧
      (linkTxLoop todo buf i s).rest = (cut lineVerdict todo s).2 := by
  induction todo generalizing buf i s with
  | zero => simp [linkTxLoop, cut]
  | succ todo ih =>
    rw [linkTxLoop, cut]
    cases hhead : s.head with
    | none => simp [lineVerdict]
    | some tmp =>
      by_cases hnull : tmp = 0
      · simp [lineVerdict, hnull]
      · have hset := take_set_succ (show i < buf.length by omega) tmp
        by_cases hnl : tmp = newline
        · subst hnl
          simp only [lineVerdict, hnull, ne_eq, not_false_eq_true, if_true, if_false]
          exact ⟨rfl, hset, trivial⟩
        · simp only [lineVerdict, hnull, hnl, ne_eq, not_false_eq_true, if_true, if_false]
          obtain ⟨hi, hbuf, hrest⟩ := @ih (buf.set i tmp) (i + 1)
            (by rw [List.length_set]; omega) s.tail
          refine ⟨?_, ?_, hrest⟩
          · rw [hi, List.length_cons]
            omega
          · rw [hbuf, hset, List.append_assoc, List.singleton_append]

/-- What `__link_tx` returns for an array of the size of the piece. -/
theorem linkTx_spec (buf : List UInt8) (s : Outcomes) :
    (linkTx buf s).piece = (cut lineVerdict buf.length s).1 ∧
      (linkTx buf s).rc = (cut lineVerdict buf.length s).1.length ∧
      (linkTx buf s).rest = (cut lineVerdict buf.length s).2 := by
  obtain ⟨hi, hbuf, hrest⟩ :=
    linkTxLoop_spec (show 0 + buf.length ≤ buf.length by omega) s
  rw [Nat.zero_add] at hi
  refine ⟨?_, congrArg Nat.cast hi, hrest⟩
  simpa [ReadResult.piece, linkTx] using hbuf

/-- `console_ll_getline` differs from `__link_tx` in the value that it returns when nothing is
stored. -/
theorem consoleLlGetline_eq (data : List UInt8) (s : Outcomes) :
    consoleLlGetline data s =
      { linkTx data s with rc := if (linkTx data s).rc = 0 then -1 else (linkTx data s).rc } := by
  simp only [consoleLlGetline, linkTx, getlineLoop_eq_linkTxLoop, Int.natCast_eq_zero]

/-- Both readers store the same. -/
theorem piece_consoleLlGetline (data : List UInt8) (s : Outcomes) :
    (consoleLlGetline data s).piece = (linkTx data s).piece := by
  rw [consoleLlGetline_eq]
  simp only [ReadResult.piece]
  split_ifs with hzero
  · rw [hzero]
    rfl
  · rfl

/-- A reader that cuts its pieces from the stream cuts those of its calls. -/
theorem calls_eq_cuts {read : List UInt8 → Outcomes → ReadResult}
    (hread : ∀ buf s, (read buf s).piece = (cut lineVerdict buf.length s).1 ∧
      (read buf s).rest = (cut lineVerdict buf.length s).2)
    (bufs : List (List UInt8)) (s : Outcomes) :
    (calls read bufs s).1.map ReadResult.piece = (cuts lineVerdict (bufs.map List.length) s).1 ∧
      (calls read bufs s).2 = (cuts lineVerdict (bufs.map List.length) s).2 := by
  induction bufs generalizing s with
  | nil => exact ⟨rfl, rfl⟩
  | cons buf bufs ih =>
    obtain ⟨hpiece, hrest⟩ := hread buf s
    obtain ⟨hpieces, hend⟩ := ih (read buf s).rest
    rw [calls, List.map_cons, List.map_cons, cuts, hpiece, hpieces, hend, hrest]
    exact ⟨rfl, rfl⟩

/-- A byte is stored if it is not the null character. -/
theorem stored_some (tmp : UInt8) :
    (lineVerdict (some tmp)).stored = if tmp = 0 then none else some tmp := by
  rw [lineVerdict]
  split_ifs <;> rfl

/-- What the reader stores of what it receives: all bytes but the null characters. -/
theorem stored_lineVerdict (outcomes : List (Option UInt8)) :
    (outcomes.filterMap fun a => (lineVerdict a).stored) =
      (outcomes.filterMap id).filter (· ≠ 0) := by
  induction outcomes with
  | nil => rfl
  | cons a outcomes ih =>
    cases a with
    | none => simpa [lineVerdict, Verdict.stored] using ih
    | some tmp =>
      rw [List.filterMap_cons, stored_some, ih]
      by_cases hnull : tmp = 0 <;> simp [hnull]

/-- What the pieces of the calls are like: as long as their arrays at most, without null characters,
and with a newline at their end only. -/
structure LinePiece (n : ℕ) (piece : List UInt8) : Prop where
  length_le : piece.length ≤ n
  no_null : 0 ∉ piece
  newline_last : newline ∉ piece.dropLast

/-- A piece that is cut is such a piece. -/
theorem linePiece_cut (n : ℕ) (s : Outcomes) : LinePiece n (cut lineVerdict n s).1 where
  length_le := length_cut_le lineVerdict n s
  no_null h := by
    obtain ⟨a, ha⟩ := mem_cut h
    unfold lineVerdict at ha
    split at ha
    · split_ifs at ha with hnull hnl <;> simp [Verdict.stored] at ha
      · exact hnull (ha ▸ rfl)
      · exact hnull ha
    · simp [Verdict.stored] at ha
  newline_last h := by
    obtain ⟨a, ha⟩ := mem_cut_dropLast h
    unfold lineVerdict at ha
    split at ha
    · split_ifs at ha with hnull hnl
      exact hnl (by cases ha; rfl)
    · cases ha

/-- The pieces of a reader's calls are such pieces. -/
theorem linePieces_calls {read : List UInt8 → Outcomes → ReadResult}
    (hread : ∀ buf s, (read buf s).piece = (cut lineVerdict buf.length s).1 ∧
      (read buf s).rest = (cut lineVerdict buf.length s).2)
    (bufs : List (List UInt8)) (s : Outcomes) :
    List.Forall₂ (fun buf r => LinePiece buf.length (ReadResult.piece r)) bufs
      (calls read bufs s).1 := by
  induction bufs generalizing s with
  | nil => exact .nil
  | cons buf bufs ih =>
    refine .cons ?_ (ih _)
    rw [(hread buf s).1]
    exact linePiece_cut _ s

/-- `__link_tx` as it reads a finite list of answers stores the piece that it cuts from them. -/
theorem linkTx_take (n : ℕ) (s : Outcomes) :
    Ble.linkTx n (s.take n) = (cut lineVerdict n s).1 := by
  induction n generalizing s with
  | zero => rfl
  | succ n ih =>
    rw [Stream'.take_succ, cut]
    cases hhead : s.head with
    | none => rfl
    | some tmp =>
      by_cases hnull : tmp = 0
      · simp [Ble.linkTx, lineVerdict, hnull]
      · by_cases hnl : tmp = newline
        · subst hnl
          simp [Ble.linkTx, lineVerdict, hnull]
        · simp [Ble.linkTx, lineVerdict, hnull, hnl, ih]

/-- The calls of both readers, with arrays of the same sizes, give the same pieces. -/
theorem calls_agree {datas bufs : List (List UInt8)}
    (hsize : datas.map List.length = bufs.map List.length) (s : Outcomes) :
    List.Forall₂ (fun g t : ReadResult => g.piece = t.piece ∧ g.rest = t.rest ∧
        g.rc = (if g.piece = [] then -1 else (g.piece.length : ℤ)) ∧ t.rc = t.piece.length)
      (calls consoleLlGetline datas s).1 (calls linkTx bufs s).1 := by
  induction datas generalizing bufs s with
  | nil =>
    obtain rfl := List.map_eq_nil_iff.mp hsize.symm
    exact .nil
  | cons data datas ih =>
    cases bufs with
    | nil => cases hsize
    | cons buf bufs =>
      rw [List.map_cons, List.map_cons, List.cons.injEq] at hsize
      obtain ⟨hlen, hsize⟩ := hsize
      obtain ⟨hpiece, hrc, hrest⟩ := linkTx_spec data s
      obtain ⟨hpiece', hrc', hrest'⟩ := linkTx_spec buf s
      rw [← hlen] at hpiece' hrc' hrest'
      have hend : (linkTx data s).rest = (linkTx buf s).rest := hrest.trans hrest'.symm
      have hg : (consoleLlGetline data s).rest = (linkTx buf s).rest := by
        rw [consoleLlGetline_eq, hend]
      refine .cons ⟨?_, hg, ?_, ?_⟩ ?_
      · rw [piece_consoleLlGetline, hpiece, hpiece']
      · rw [piece_consoleLlGetline, consoleLlGetline_eq, hpiece, hrc]
        simp only [Int.natCast_eq_zero, List.length_eq_zero_iff]
      · rw [hrc', hpiece']
      · rw [hg]
        exact ih hsize _

/-- On every stream, `console_ll_getline` and `__link_tx` with arrays of the same sizes store the same
pieces and leave the same rest, call after call; they differ in the value for an empty piece. The
pieces together are the bytes taken from the stream, without the null characters. -/
theorem readers_agree (s : Outcomes) {datas bufs : List (List UInt8)}
    (hsize : datas.map List.length = bufs.map List.length) :
    (calls consoleLlGetline datas s).2 = (calls linkTx bufs s).2 ∧
      List.Forall₂ (fun g t : ReadResult => g.piece = t.piece ∧ g.rest = t.rest ∧
          g.rc = (if g.piece = [] then -1 else (g.piece.length : ℤ)) ∧ t.rc = t.piece.length)
        (calls consoleLlGetline datas s).1 (calls linkTx bufs s).1 ∧
      List.Forall₂ (fun data g => LinePiece data.length (ReadResult.piece g))
        datas (calls consoleLlGetline datas s).1 ∧
      ∃ k, (calls consoleLlGetline datas s).2 = s.drop k ∧
        ((calls consoleLlGetline datas s).1.map ReadResult.piece).flatten =
          ((s.take k).filterMap id).filter (· ≠ 0) := by
  have hlink : ∀ buf s, (linkTx buf s).piece = (cut lineVerdict buf.length s).1 ∧
      (linkTx buf s).rest = (cut lineVerdict buf.length s).2 := fun buf s =>
    ⟨(linkTx_spec buf s).1, (linkTx_spec buf s).2.2⟩
  have hgetline : ∀ data s, (consoleLlGetline data s).piece = (cut lineVerdict data.length s).1 ∧
      (consoleLlGetline data s).rest = (cut lineVerdict data.length s).2 := by
    intro data s
    rw [piece_consoleLlGetline, consoleLlGetline_eq]
    exact hlink data s
  obtain ⟨hpieces, hrest⟩ := calls_eq_cuts hgetline datas s
  refine ⟨?_, calls_agree hsize s, linePieces_calls hgetline datas s, ?_⟩
  · rw [hrest, (calls_eq_cuts hlink bufs s).2, hsize]
  · obtain ⟨k, hk, hflat⟩ := cuts_consumes lineVerdict (datas.map List.length) s
    refine ⟨k, hrest.trans hk, ?_⟩
    rw [hpieces, hflat, stored_lineVerdict]

/-- A line, a byte that is followed by a null character, and a timeout, in pieces of at most three
bytes. -/
theorem readers_agree_four_calls :
    List.Forall₂ (fun g t : ReadResult => g.piece = t.piece ∧ g.rest = t.rest ∧
        g.rc = (if g.piece = [] then -1 else (g.piece.length : ℤ)) ∧ t.rc = t.piece.length)
      (calls consoleLlGetline (List.replicate 4 [0, 0, 0])
        ([some 65, some 66, some 67, some newline, some 68, some 0] ++ₛ Stream'.const none)).1
      (calls linkTx (List.replicate 4 [1, 1, 1])
        ([some 65, some 66, some 67, some newline, some 68, some 0] ++ₛ Stream'.const none)).1 :=
  (readers_agree _ (by decide)).2.1

end PartLib.Ble.LineReaders
