import SealedToken.Deflate.Deflater
import SealedToken.Proofs.Deflate.Bits
import SealedToken.Proofs.Deflate.Expansion

/-!
Tokens are decoded as they were written, in the code that needs no description: a block of
tokens expands to what the tokens expand to.
-/

namespace SealedToken.Deflate

open BitReader Inflater

variable {r r' : BitReader} {bits : List Nat}

/-! ### Words -/

/-- Where the symbol stands whose word these bits are, in a code with so many words of each
length. -/
def placeOf (counts : List Nat) (total word index length : Nat) : (bits : List Nat) → Option Nat
  | [] => none
  | b :: bits =>
      let word := 2 * word + b
      let count := counts.getD (length + 1) 0
      if word < count then if bits = [] then some (index + word) else none
      else if total ≤ index + count then none
      else placeOf counts total (word - count) (index + count) (length + 1) bits

theorem Code.symbolFrom_of_gives {c : Code} {word index length left place symbol : Nat}
    (hplace : placeOf c.counts.toList c.symbols.size word index length bits = some place)
    (hsymbol : c.symbols[place]? = some symbol) (hleft : bits.length ≤ left)
    (h : r.Gives bits r') : c.symbolFrom word index length r left = .ok (symbol, r') := by
  induction bits generalizing word index length left r with
  | nil => simp [placeOf] at hplace
  | cons b bits ih =>
      obtain ⟨left, rfl⟩ : ∃ k, left = k + 1 := ⟨left - 1, by simp at hleft; omega⟩
      obtain ⟨next, hbit, hnext⟩ := h
      simp only [placeOf, List.getD_eq_getElem?_getD, Array.getElem?_toList] at hplace
      rw [symbolFrom, hbit, ok_bind]
      simp only [Array.getD_eq_getD_getElem?]
      split at hplace
      · next hlt =>
          rw [if_pos hlt]
          split at hplace
          · next hnil =>
              subst hnil
              obtain rfl := hnext
              obtain rfl := Option.some.inj hplace
              rw [hsymbol]
          · simp at hplace
      · next hge =>
          rw [if_neg hge]
          split at hplace
          · simp at hplace
          · next hmore =>
              rw [if_neg hmore]
              refine ih ?_ (by simpa using hleft) hnext
              simpa only [List.getD_eq_getElem?_getD, Array.getElem?_toList] using hplace

/-- A code word as it is written. -/
def wordBits (n count : Nat) : List Nat := lowBits (BitWriter.reversed n count) count

/-- The word of a symbol in the code that needs no description. -/
def symbolBits (symbol : Nat) : List Nat :=
  if symbol < 144 then wordBits (48 + symbol) 8
  else if symbol < 256 then wordBits (256 + symbol) 9
  else if symbol < 280 then wordBits (symbol - 256) 7
  else wordBits (symbol - 88) 8

theorem length_symbolBits {symbol : Nat} :
    7 ≤ (symbolBits symbol).length ∧ (symbolBits symbol).length ≤ 9 := by
  unfold symbolBits
  split_ifs <;> simp [wordBits]

/-- The place of a symbol among those with longer and shorter words. -/
def symbolPlace (symbol : Nat) : Nat :=
  if symbol < 144 then 24 + symbol
  else if symbol < 256 then 176 + (symbol - 144)
  else if symbol < 280 then symbol - 256
  else 168 + (symbol - 280)

theorem fixedLiterals_counts : Code.fixedLiterals.counts.toList =
    [0, 0, 0, 0, 0, 0, 0, 24, 152, 112, 0, 0, 0, 0, 0, 0] := by
  decide +kernel

theorem fixedLiterals_symbols : Code.fixedLiterals.symbols.toList =
    List.range' 256 24 ++ List.range' 0 144 ++ List.range' 280 8 ++ List.range' 144 112 := by
  decide +kernel

theorem getElem?_fixedLiterals {symbol : Nat} (h : symbol < 288) :
    Code.fixedLiterals.symbols[symbolPlace symbol]? = some symbol := by
  rw [← Array.getElem?_toList, fixedLiterals_symbols, symbolPlace]
  split_ifs <;>
    simp only [List.getElem?_append, List.length_append, List.length_range', Nat.add_sub_cancel_left]
  · rw [if_pos (by omega), if_pos (by omega), if_neg (by omega), List.getElem?_range' (by omega)]
    exact congrArg some (by omega)
  · rw [if_neg (by omega), List.getElem?_range' (by omega)]
    exact congrArg some (by omega)
  · rw [if_pos (by omega), if_pos (by omega), if_pos (by omega), List.getElem?_range' (by omega)]
    exact congrArg some (by omega)
  · rw [if_pos (by omega), if_neg (by omega), List.getElem?_range' (by omega)]
    exact congrArg some (by omega)

theorem placeOf_symbolBits {symbol : Nat} (h : symbol < 288) :
    placeOf Code.fixedLiterals.counts.toList Code.fixedLiterals.symbols.size 0 0 0
      (symbolBits symbol) = some (symbolPlace symbol) := by
  have hsize : Code.fixedLiterals.symbols.size = 288 := by
    rw [← Array.length_toList, fixedLiterals_symbols]
    simp
  have hall : (List.range 288).all (fun symbol =>
      placeOf [0, 0, 0, 0, 0, 0, 0, 24, 152, 112, 0, 0, 0, 0, 0, 0] 288 0 0 0 (symbolBits symbol) ==
        some (symbolPlace symbol)) = true := by
    decide +kernel
  rw [fixedLiterals_counts, hsize]
  exact eq_of_beq (List.all_eq_true.1 hall symbol (List.mem_range.2 h))

theorem literals_of_gives {symbol : Nat} (hsymbol : symbol < 288)
    (h : r.Gives (symbolBits symbol) r') : Code.fixedLiterals.symbol r = .ok (symbol, r') :=
  Code.symbolFrom_of_gives (placeOf_symbolBits hsymbol) (getElem?_fixedLiterals hsymbol)
    (Nat.le_trans length_symbolBits.2 (by decide)) h

theorem distances_of_gives {symbol : Nat} (hsymbol : symbol < 32)
    (h : r.Gives (wordBits symbol 5) r') : Code.fixedDistances.symbol r = .ok (symbol, r') := by
  have hall : (List.range 32).all (fun symbol =>
      placeOf Code.fixedDistances.counts.toList Code.fixedDistances.symbols.size 0 0 0
          (wordBits symbol 5) == some symbol &&
        Code.fixedDistances.symbols[symbol]? == some symbol) = true := by
    decide +kernel
  have hword := List.all_eq_true.1 hall symbol (List.mem_range.2 hsymbol)
  rw [Bool.and_eq_true] at hword
  exact Code.symbolFrom_of_gives (eq_of_beq hword.1) (eq_of_beq hword.2)
    (by simp [wordBits, Code.greatestLength]) h

/-! ### Numbers from tables -/

/-- Each entry of a table reaches to the next one, and the last one to the end. -/
def Reaches (last : Nat) : List (Nat × Nat) → Bool
  | [] => false
  | [(least, count)] => last < least + 2 ^ count
  | (least, count) :: (next, count') :: rest =>
      next ≤ least + 2 ^ count && Reaches last ((next, count') :: rest)

/-- The entry for a number covers it. -/
theorem exists_entry {last n : Nat} {table : List (Nat × Nat)} (hreaches : Reaches last table = true)
    (hleast : ∀ entry ∈ table.head?, entry.1 ≤ n) (hlast : n ≤ last) :
    ∃ least count, table[(table.takeWhile (·.1 ≤ n)).length - 1]? = some (least, count) ∧
      least ≤ n ∧ n < least + 2 ^ count := by
  induction table using Reaches.induct with
  | case1 => simp [Reaches] at hreaches
  | case2 least count =>
      have hle : least ≤ n := hleast _ rfl
      have hlt : last < least + 2 ^ count := by simpa [Reaches] using hreaches
      exact ⟨least, count, by simp [hle], hle, by omega⟩
  | case3 least count next count' rest ih =>
      have hle : least ≤ n := hleast _ rfl
      simp only [Reaches, Bool.and_eq_true, decide_eq_true_eq] at hreaches
      rw [List.takeWhile_cons_of_pos (by simpa using hle), List.length_cons, Nat.add_sub_cancel]
      by_cases hnext : next ≤ n
      · obtain ⟨least', count'', hentry, hcovers⟩ := ih hreaches.2 (by simpa using hnext)
        refine ⟨least', count'', ?_, hcovers⟩
        rw [List.takeWhile_cons_of_pos (by simpa using hnext)] at hentry ⊢
        rw [List.length_cons, List.getElem?_cons_succ]
        simpa using hentry
      · refine ⟨least, count, ?_, hle, by omega⟩
        rw [List.takeWhile_cons_of_neg (by simpa using hnext)]
        rfl

theorem exists_tableIndex {last n : Nat} {table : Array (Nat × Nat)}
    (hreaches : Reaches last table.toList = true)
    (hleast : ∀ entry ∈ table.toList.head?, entry.1 ≤ n) (hlast : n ≤ last) :
    ∃ least count, table[tableIndex table n]? = some (least, count) ∧
      least ≤ n ∧ n < least + 2 ^ count := by
  rw [tableIndex, ← Array.getElem?_toList]
  exact exists_entry hreaches hleast hlast

/-! ### Tokens -/

/-- What can be written. -/
def Token.Valid : Token → Prop
  | .literal _ => True
  | .copy length distance =>
      leastCopy ≤ length ∧ length ≤ greatestCopy ∧ 0 < distance ∧ distance ≤ greatestDistance

instance : DecidablePred Token.Valid
  | .literal _ => inferInstanceAs (Decidable True)
  | .copy length distance =>
      inferInstanceAs (Decidable (leastCopy ≤ length ∧ length ≤ greatestCopy ∧ 0 < distance ∧
        distance ≤ greatestDistance))

/-- A symbol or a word for the entry of a number in a table, and the additional bits. -/
def entryBits (table : Array (Nat × Nat)) (n : Nat) (word : Nat → List Nat) : List Nat :=
  let entry := table.getD (tableIndex table n) (0, 0)
  word (tableIndex table n) ++ lowBits (n - entry.1) entry.2

def tokenBits : Token → List Nat
  | .literal byte => symbolBits byte.toNat
  | .copy length distance =>
      entryBits lengthTable length (fun i => symbolBits (endOfBlock + 1 + i)) ++
        entryBits distanceTable distance (wordBits · 5)

section Writing

open BitWriter

variable {w : BitWriter}

theorem written_word {n count : Nat} (h : w.Tidy) :
    (w.word n count).written = w.written ++ wordBits n count ∧ (w.word n count).Tidy :=
  written_bits h

theorem written_symbol {symbol : Nat} (h : w.Tidy) :
    (writeSymbol w symbol).written = w.written ++ symbolBits symbol ∧ (writeSymbol w symbol).Tidy := by
  unfold writeSymbol symbolBits
  split_ifs <;> exact written_word h

theorem written_token {t : Token} (h : w.Tidy) :
    (writeToken w t).written = w.written ++ tokenBits t ∧ (writeToken w t).Tidy := by
  cases t with
  | literal byte => exact written_symbol h
  | copy length distance =>
      rcases hlength : lengthTable.getD (tableIndex lengthTable length) (0, 0) with ⟨least, count⟩
      rcases hdistance : distanceTable.getD (tableIndex distanceTable distance) (0, 0) with
        ⟨least', count'⟩
      simp only [writeToken, tokenBits, entryBits, hlength, hdistance]
      have htidy (symbol n count : Nat) : ((writeSymbol w symbol).bits n count).Tidy :=
        (written_bits (written_symbol h).2).2
      have htidy' (symbol n count word : Nat) :
          (((writeSymbol w symbol).bits n count).word word 5).Tidy :=
        (written_word (htidy symbol n count)).2
      refine ⟨?_, (written_bits (htidy' _ _ _ _)).2⟩
      rw [(written_bits (htidy' _ _ _ _)).1, (written_word (htidy _ _ _)).1,
        (written_bits (written_symbol h).2).1, (written_symbol h).1]
      simp only [List.append_assoc]

theorem written_tokens {ts : List Token} (h : w.Tidy) :
    (ts.foldl writeToken w).written = w.written ++ ts.flatMap tokenBits ∧
      (ts.foldl writeToken w).Tidy := by
  induction ts generalizing w with
  | nil => exact ⟨by simp, h⟩
  | cons t ts ih =>
      obtain ⟨ht, htidy⟩ := @written_token w t h
      obtain ⟨hts, htidy'⟩ := ih htidy
      exact ⟨by rw [List.foldl_cons, hts, ht, List.flatMap_cons, List.append_assoc], htidy'⟩

end Writing

theorem tableNumber_of_gives {table : Array (Nat × Nat)} {last n : Nat} {word : Nat → List Nat}
    (hreaches : Reaches last table.toList = true)
    (hleast : ∀ entry ∈ table.toList.head?, entry.1 ≤ n) (hlast : n ≤ last)
    (h : r.Gives (entryBits table n word) r') :
    tableIndex table n < table.size ∧ ∃ next, r.Gives (word (tableIndex table n)) next ∧
      Cursor.tableNumber table (tableIndex table n) next = .ok (n, r') := by
  obtain ⟨least, count, hentry, hle, hlt⟩ := exists_tableIndex hreaches hleast hlast
  obtain ⟨next, hword, hbits⟩ := gives_append.1 h
  refine ⟨(Array.getElem?_eq_some_iff.1 hentry).1, next, hword, ?_⟩
  have hget : table.getD (tableIndex table n) (0, 0) = (least, count) := by
    rw [Array.getD_eq_getD_getElem?, hentry, Option.getD_some]
  rw [hget] at hbits
  rw [Cursor.tableNumber, hentry]
  dsimp only
  rw [bits_of_gives hbits, ok_bind]
  dsimp only
  rw [Nat.mod_eq_of_lt (by omega), Nat.add_sub_cancel' hle]

/-- A token is decoded as it was written. -/
theorem stepCoded_of_gives {s : Cursor} {t : Token} (ht : t.Valid)
    (h : s.reader.Gives (tokenBits t) r') :
    s.stepCoded .fixedLiterals .fixedDistances = .ok ({ s with reader := r' }, .token t) := by
  cases t with
  | literal byte =>
      have hlt : byte.toNat < 256 := byte.toNat_lt
      rw [Cursor.stepCoded, literals_of_gives (by omega) h, ok_bind]
      dsimp only
      rw [if_pos (show byte.toNat < endOfBlock from hlt), UInt8.ofNat_toNat]
  | copy length distance =>
      obtain ⟨hleast, hgreatest, hdistance, hfar⟩ := ht
      obtain ⟨r₁, hlength, hrest⟩ := gives_append.1 h
      obtain ⟨hindex, _, hsymbol, hnumber⟩ := tableNumber_of_gives (by decide)
        (by simpa [lengthTable, leastCopy] using hleast) hgreatest hlength
      obtain ⟨hindex', _, hsymbol', hnumber'⟩ := tableNumber_of_gives (by decide)
        (by simpa [distanceTable] using Nat.succ_le_of_lt hdistance) hfar hrest
      have hplace (i : Nat) : endOfBlock + 1 + i - endOfBlock - 1 = i := by omega
      change _ < 29 at hindex
      change _ < 30 at hindex'
      rw [Cursor.stepCoded, literals_of_gives (by rw [endOfBlock]; omega) hsymbol, ok_bind]
      dsimp only
      rw [if_neg (by omega), if_neg (by omega), hplace, hnumber, ok_bind]
      dsimp only
      rw [distances_of_gives (by omega) hsymbol', ok_bind]
      dsimp only
      rw [hnumber', ok_bind]

/-! ### Blocks -/

/-- Some tokens, written as one last block. -/
def pack (ts : List Token) : ByteArray :=
  (writeSymbol (ts.foldl writeToken ((BitWriter.bits {} 1 1).bits 1 2)) endOfBlock).finish

theorem deflate_eq_pack (bytes : ByteArray) : deflate bytes = pack (tokens bytes).toList := by
  rw [deflate, pack, Array.foldl_toList]

theorem BitWriter.count_flush_lt {w : BitWriter} : w.flush.count < 8 := by
  induction w using BitWriter.flush.induct with
  | case1 w hlt => rwa [flush, if_pos hlt]
  | case2 w hle ih => rwa [flush, if_neg hle]

theorem count_writeSymbol_lt {w : BitWriter} {symbol : Nat} : (writeSymbol w symbol).count < 8 := by
  unfold writeSymbol
  split_ifs <;> exact BitWriter.count_flush_lt

/-- The bits of a block are those of its head, of its tokens and of its end. -/
theorem bitsOf_pack (ts : List Token) : ∃ filling : List Nat, filling.length < 8 ∧
    bitsOf (pack ts) =
      (lowBits 1 1 ++ lowBits 1 2) ++ (ts.flatMap tokenBits ++ (symbolBits endOfBlock ++ filling)) := by
  obtain ⟨filling, hfilling, hbits⟩ := BitWriter.bitsOf_finish (@count_writeSymbol_lt
    (ts.foldl writeToken ((BitWriter.bits {} 1 1).bits 1 2)) endOfBlock)
  refine ⟨filling, hfilling, ?_⟩
  have htidy : BitWriter.Tidy {} := Nat.one_pos
  have hlast := @BitWriter.written_bits 1 1 _ htidy
  have hkind := @BitWriter.written_bits 1 2 _ hlast.2
  have htokens := @written_tokens _ ts hkind.2
  have hnone : BitWriter.written {} = [] := rfl
  rw [pack, hbits, (written_symbol htokens.2).1, htokens.1, hkind.1, hlast.1, hnone]
  simp only [List.nil_append, List.append_assoc]

/-- Somewhere among the tokens of a last block. -/
def coded (input : ByteArray) (pos : Nat) : Cursor :=
  ⟨⟨input, pos⟩, true, .coded .fixedLiterals .fixedDistances⟩

/-- Where the tokens end. -/
def endOf (ts : List Token) : Nat := 3 + (ts.flatMap tokenBits).length

theorem gives_pack (ts : List Token) :
    Gives ⟨pack ts, 0⟩ (lowBits 1 1 ++ lowBits 1 2) ⟨pack ts, 3⟩ ∧
      Gives ⟨pack ts, 3⟩ (ts.flatMap tokenBits) ⟨pack ts, endOf ts⟩ ∧
      Gives ⟨pack ts, endOf ts⟩ (symbolBits endOfBlock) ⟨pack ts, endOf ts + 7⟩ := by
  obtain ⟨filling, -, hbits⟩ := bitsOf_pack ts
  refine ⟨gives_of_bitsOf hbits, @gives_of_bitsOf _ _ _ (symbolBits endOfBlock ++ filling) ?_,
    @gives_of_bitsOf _ _ _ filling ?_⟩
  · rw [hbits]
    rfl
  · rw [hbits, endOf, ← List.drop_drop]
    exact List.drop_left

theorem size_pack (ts : List Token) : (pack ts).size = (endOf ts + 14) / 8 := by
  obtain ⟨filling, hfilling, hbits⟩ := bitsOf_pack ts
  have hlength := congrArg List.length hbits
  rw [length_bitsOf] at hlength
  simp only [List.length_append, length_lowBits] at hlength
  have hend : (symbolBits endOfBlock).length = 7 := rfl
  rw [endOf]
  omega

/-! ### Decoding blocks -/

section Steps

variable {ts : List Token} {s : Cursor} {out : ByteArray} {bound room fuel : Nat}

theorem next_start : (start (pack ts)).next room = .ok ⟨coded (pack ts) 3, .empty⟩ := by
  obtain ⟨next, hlast, hkind⟩ := gives_append.1 (gives_pack ts).1
  rw [Inflater.next, Cursor.step]
  change ((Cursor.stepHead _).map _).map _ = _
  rw [Cursor.stepHead]
  change ((BitReader.bits ⟨pack ts, 0⟩ 1 >>= _).map _).map _ = _
  rw [bits_of_gives hlast, ok_bind]
  dsimp only
  rw [bits_of_gives hkind, ok_bind]
  rfl

theorem step_coded {literals distances : Code} (hmode : s.mode = .coded literals distances) :
    s.step room = s.stepCoded literals distances := by
  rw [Cursor.step, hmode]

theorem next_token {t : Token} (hmode : s.mode = .coded .fixedLiterals .fixedDistances)
    (ht : t.Valid) (h : s.reader.Gives (tokenBits t) r') :
    Inflater.next ⟨s, out⟩ room = .ok ⟨{ s with reader := r' }, t.appendTo out⟩ := by
  rw [Inflater.next, step_coded hmode, stepCoded_of_gives ht h]
  rfl

theorem next_end (hmode : s.mode = .coded .fixedLiterals .fixedDistances)
    (h : s.reader.Gives (symbolBits endOfBlock) r') :
    Inflater.next ⟨s, out⟩ room = .ok ⟨{ s with reader := r' }.endBlock, out⟩ := by
  rw [Inflater.next, step_coded hmode, Cursor.stepCoded, literals_of_gives (by decide) h, ok_bind]
  rfl

theorem steps_tokens (hmode : s.mode = .coded .fixedLiterals .fixedDistances)
    (hts : ∀ t ∈ ts, t.Valid) (h : s.reader.Gives (ts.flatMap tokenBits) r') :
    Steps ⟨s, out⟩ ⟨{ s with reader := r' }, ts.foldl Token.appendTo out⟩ := by
  induction ts generalizing s out with
  | nil =>
      obtain rfl := h
      exact .refl
  | cons t ts ih =>
      obtain ⟨next, ht, hrest⟩ := gives_append.1 h
      rw [List.forall_mem_cons] at hts
      exact .head ⟨by simp [isDone, hmode], 0, next_token hmode hts.1 ht⟩ (ih hmode hts.2 hrest)

/-- Tokens that can be decoded expand as they are. -/
theorem expands_pack (hts : ∀ t ∈ ts, t.Valid) :
    Expands (pack ts) (ts.foldl Token.appendTo .empty) := by
  obtain ⟨-, htokens, hend⟩ := gives_pack ts
  refine ⟨⟨⟨⟨pack ts, endOf ts + 7⟩, true, .done⟩, _⟩, ⟨?_, not_step_of_done rfl⟩, rfl, rfl, ?_⟩
  · calc Steps (start (pack ts)) ⟨coded (pack ts) 3, .empty⟩ := .single ⟨rfl, 0, next_start⟩
      Steps _ ⟨coded (pack ts) (endOf ts), ts.foldl Token.appendTo .empty⟩ :=
        steps_tokens rfl hts htokens
      Steps _ _ := .single ⟨rfl, 0, next_end rfl hend⟩
  · rw [size_pack]

/-! ### Runs -/

/-- How many bytes some tokens stand for. -/
def totalLength : List Token → Nat
  | [] => 0
  | t :: ts => t.length + totalLength ts

theorem size_tokens : (ts.foldl Token.appendTo out).size = out.size + totalLength ts := by
  induction ts generalizing out with
  | nil => rfl
  | cons t ts ih => rw [List.foldl_cons, ih, Token.size_appendTo, totalLength, Nat.add_assoc]

/-- A run comes by all tokens but for those behind the bound. -/
theorem run_tokens (hmode : s.mode = .coded .fixedLiterals .fixedDistances)
    (hts : ∀ t ∈ ts, t.Valid) (h : s.reader.Gives (ts.flatMap tokenBits) r')
    (hbound : out.size + totalLength ts.dropLast ≤ bound) :
    run bound ⟨s, out⟩ (ts.length + fuel) =
      run bound ⟨{ s with reader := r' }, ts.foldl Token.appendTo out⟩ fuel := by
  induction ts generalizing s out with
  | nil =>
      obtain rfl := h
      simp
  | cons t ts ih =>
      obtain ⟨next, ht, hrest⟩ := gives_append.1 h
      rw [List.forall_mem_cons] at hts
      have hopen : isDone ⟨s, out⟩ = false := by simp [isDone, hmode]
      have hfull : isFull ⟨s, out⟩ bound = false := by
        simp only [isFull, hmode, decide_eq_false_iff_not]
        omega
      rw [List.length_cons, Nat.succ_add, run_succ hopen hfull, next_token hmode hts.1 ht]
      dsimp only
      cases ts with
      | nil =>
          obtain rfl := hrest
          simp
      | cons t' ts =>
          rw [List.dropLast_cons_cons, totalLength] at hbound
          refine ih hmode hts.2 hrest ?_
          rw [Token.size_appendTo]
          omega

theorem le_length_tokenBits (t : Token) : 7 ≤ (tokenBits t).length := by
  cases t with
  | literal byte => exact length_symbolBits.1
  | copy length distance =>
      have hsymbol := @length_symbolBits (endOfBlock + 1 + tableIndex lengthTable length)
      rw [tokenBits, entryBits, List.length_append, List.length_append]
      omega

theorem length_le_tokenBits : ts.length ≤ (ts.flatMap tokenBits).length := by
  induction ts with
  | nil => exact Nat.le_refl _
  | cons t ts ih =>
      have ht := le_length_tokenBits t
      rw [List.flatMap_cons, List.length_append, List.length_cons]
      omega

/-- Where the last token passes the bound, a run stops behind it. -/
theorem runTo_pack (hts : ∀ t ∈ ts, t.Valid) (hlast : totalLength ts.dropLast ≤ bound)
    (hpast : bound < totalLength ts) :
    runTo bound (start (pack ts)) =
      (⟨coded (pack ts) (endOf ts), ts.foldl Token.appendTo .empty⟩, none) := by
  obtain ⟨fuel, hfuel⟩ : ∃ fuel,
      2 * (start (pack ts)).cursor.reader.left + 2 = ts.length + (fuel + 1) + 1 := by
    have hlength := @length_le_tokenBits ts
    refine ⟨2 * (8 * (pack ts).size) - ts.length, ?_⟩
    change 2 * (8 * (pack ts).size - 0) + 2 = _
    rw [size_pack, endOf]
    omega
  have hfull : isFull ⟨coded (pack ts) (endOf ts), ts.foldl Token.appendTo .empty⟩ bound = true := by
    simpa [isFull, coded, size_tokens] using hpast
  rw [runTo, hfuel, run_succ rfl rfl, next_start]
  dsimp only
  rw [run_tokens rfl hts (gives_pack ts).2.1 (by simpa using hlast), run, if_pos (.inr hfull)]
  rfl

end Steps

end SealedToken.Deflate
