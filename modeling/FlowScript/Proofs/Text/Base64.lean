import FlowScript.Proofs.Text.Lines
import FlowScript.Text.Base64

/-!
# Reading base 64 back

The reader takes four symbols as one number of 24 bits, which is the number that three bytes make. A
group that is cut short holds the bytes in its leading bits, and the fillers say how many there are.
So what is written for bytes is read as these bytes, whatever their number.

## Main results

- `run_group` — four symbols are read as the three bytes that they were written for
- `decode_encode` — bytes are read back
- `isBlank_of_mem_encode` — the text of bytes holds no blanks
-/

namespace FlowScript.Base64

/-! ## Symbols -/

theorem value?_symbol {n : Nat} (h : n < 64) : value? (symbol n) = some n := by
  revert n
  decide

/-- A symbol is no filler and no blank. -/
theorem symbol_spec {n : Nat} (h : n < 64) :
    symbol n ≠ '=' ∧ Text.isBlank (symbol n) = false := by
  revert n
  decide

theorem isBlank_of_mem_group {a b c : Nat} (ha : a < 256) (hb : b < 256) (hc : c < 256) :
    ∀ d ∈ group a b c, Text.isBlank d = false := by
  simp only [group, List.forall_mem_cons]
  exact ⟨(symbol_spec (by omega)).2, (symbol_spec (by omega)).2, (symbol_spec (by omega)).2,
    (symbol_spec (by omega)).2, by simp⟩

/-! ## Writing -/

theorem encodeOnto_append (more done : List Char) (bytes : List UInt8) :
    encodeOnto (more ++ done) bytes = done.reverse ++ encodeOnto more bytes := by
  induction more, bytes using encodeOnto.induct with
  | case1 more => simp [encodeOnto]
  | case2 more a => simp [encodeOnto]
  | case3 more a b => simp [encodeOnto]
  | case4 more a b c rest ih =>
    rw [encodeOnto, ← List.append_assoc, ih, encodeOnto]

theorem encode_cons (a b c : UInt8) (rest : List UInt8) :
    encode (a :: b :: c :: rest) = group a.toNat b.toNat c.toNat ++ encode rest := by
  have h := encodeOnto_append [] (group a.toNat b.toNat c.toNat).reverse rest
  rwa [List.reverse_reverse, List.nil_append, ← List.append_nil (List.reverse _)] at h

theorem encode_ne_nil {bytes : List UInt8} (h : bytes ≠ []) : encode bytes ≠ [] := by
  match bytes with
  | [] => exact absurd rfl h
  | [a] => simp [encode, encodeOnto]
  | [a, b] => simp [encode, encodeOnto]
  | a :: b :: c :: rest => simp [encode_cons, group]

/-- The text of bytes holds no blanks. -/
theorem isBlank_of_mem_encode (bytes : List UInt8) :
    ∀ d ∈ encode bytes, Text.isBlank d = false := by
  have hgroup := fun a b c : UInt8 => isBlank_of_mem_group a.toNat_lt b.toNat_lt c.toNat_lt
  match bytes with
  | [] => simp [encode, encodeOnto]
  | [a] =>
    have htext : encode [a] = (group a.toNat 0 0).take 2 ++ ['=', '='] := by
      simp [encode, encodeOnto]
    rw [htext]
    refine List.forall_mem_append.mpr ⟨?_, by simp [Text.isBlank]⟩
    exact fun d hd => hgroup a 0 0 d (List.mem_of_mem_take hd)
  | [a, b] =>
    have htext : encode [a, b] = (group a.toNat b.toNat 0).take 3 ++ ['='] := by
      simp [encode, encodeOnto]
    rw [htext]
    refine List.forall_mem_append.mpr ⟨?_, by simp [Text.isBlank]⟩
    exact fun d hd => hgroup a b 0 d (List.mem_of_mem_take hd)
  | a :: b :: c :: rest =>
    rw [encode_cons]
    exact List.forall_mem_append.mpr ⟨hgroup a b c, isBlank_of_mem_encode rest⟩

/-! ## Reading -/

theorem run_cons {r r' : Reader} {offset : Nat} {c : Char} (h : r.step offset c = .ok r')
    (cs : List Char) : r.run offset (c :: cs) = r'.run (offset + 1) cs := by
  rw [Reader.run, h]

theorem step_value {done : List UInt8} {count bits offset n : Nat} (hn : n < 64) :
    Reader.step ⟨done, .symbols count, bits⟩ offset (symbol n) =
      if count = 3 then
        .ok { bytes := UInt8.ofNat (bits * 64 + n) :: UInt8.ofNat ((bits * 64 + n) / 256)
                :: UInt8.ofNat ((bits * 64 + n) / 65536) :: done }
      else .ok ⟨done, .symbols (count + 1), bits * 64 + n⟩ := by
  obtain ⟨hfiller, hblank⟩ := symbol_spec hn
  have hreturn : symbol n ≠ '\r' := by
    intro h
    rw [h] at hblank
    cases hblank
  have hfeed : symbol n ≠ '\n' := by
    intro h
    rw [h] at hblank
    cases hblank
  simp [Reader.step, hreturn, hfeed, hfiller, value?_symbol hn]

/-- The first three symbols of a group are gathered as one number. -/
theorem run_symbols {m n k : Nat} (hm : m < 64) (hn : n < 64) (hk : k < 64) (done : List UInt8)
    (offset : Nat) (cs : List Char) :
    Reader.run { bytes := done } offset (symbol m :: symbol n :: cs) =
        Reader.run ⟨done, .symbols 2, m * 64 + n⟩ (offset + 2) cs ∧
      Reader.run { bytes := done } offset (symbol m :: symbol n :: symbol k :: cs) =
        Reader.run ⟨done, .symbols 3, (m * 64 + n) * 64 + k⟩ (offset + 3) cs := by
  have htwo : ∀ cs, Reader.run { bytes := done } offset (symbol m :: symbol n :: cs) =
      Reader.run ⟨done, .symbols 2, m * 64 + n⟩ (offset + 2) cs := by
    intro cs
    rw [run_cons (step_value hm), run_cons (step_value hn)]
    simp
  refine ⟨htwo cs, ?_⟩
  rw [htwo, run_cons (step_value hk)]

theorem ofNat_eq {n : Nat} {a : UInt8} (h : n % 256 = a.toNat) : UInt8.ofNat n = a :=
  UInt8.toNat_inj.mp (by rw [UInt8.toNat_ofNat', h])

/-- Four symbols are read as the three bytes that they were written for. -/
theorem run_group (a b c : UInt8) (done : List UInt8) (offset : Nat) (cs : List Char) :
    Reader.run { bytes := done } offset (group a.toNat b.toNat c.toNat ++ cs) =
      Reader.run { bytes := c :: b :: a :: done } (offset + 4) cs := by
  have ha := a.toNat_lt
  have hb := b.toNat_lt
  have hc := c.toNat_lt
  have hbits : ((a.toNat / 4 * 64 + (a.toNat % 4 * 16 + b.toNat / 16)) * 64 +
      (b.toNat % 16 * 4 + c.toNat / 64)) * 64 + c.toNat % 64 =
        (a.toNat * 256 + b.toNat) * 256 + c.toNat := by omega
  obtain ⟨-, hthree⟩ := run_symbols (m := a.toNat / 4) (n := a.toNat % 4 * 16 + b.toNat / 16)
    (k := b.toNat % 16 * 4 + c.toNat / 64) (by omega) (by omega) (by omega) done offset
    (symbol (c.toNat % 64) :: cs)
  have hlast := @step_value done 3 ((a.toNat / 4 * 64 + (a.toNat % 4 * 16 + b.toNat / 16)) * 64 +
    (b.toNat % 16 * 4 + c.toNat / 64)) (offset + 3) (c.toNat % 64) (by omega)
  rw [if_pos rfl, hbits, ofNat_eq (a := c) (by omega), ofNat_eq (a := b) (by omega),
    ofNat_eq (a := a) (by omega)] at hlast
  rw [group, List.cons_append, List.cons_append, List.cons_append, List.cons_append, List.nil_append,
    hthree, run_cons hlast]

/-- A group of two symbols and two fillers is read as one byte. -/
theorem run_one (a : UInt8) (done : List UInt8) (offset : Nat) :
    Reader.run { bytes := done } offset (encode [a]) = .ok (done.reverse ++ [a]) := by
  have ha := a.toNat_lt
  obtain ⟨htwo, -⟩ := run_symbols (m := a.toNat / 4) (n := a.toNat % 4 * 16) (k := 0)
    (by omega) (by omega) (by omega) done offset ['=', '=']
  have hbyte : UInt8.ofNat ((a.toNat / 4 * 64 + a.toNat % 4 * 16) / 16) = a := ofNat_eq (by omega)
  have htext : encode [a] = [symbol (a.toNat / 4), symbol (a.toNat % 4 * 16), '=', '='] := by
    simp [encode, encodeOnto, group]
  rw [htext, htwo]
  simp [Reader.run, Reader.step, Reader.close, hbyte]

/-- A group of three symbols and a filler is read as two bytes. -/
theorem run_two (a b : UInt8) (done : List UInt8) (offset : Nat) :
    Reader.run { bytes := done } offset (encode [a, b]) = .ok (done.reverse ++ [a, b]) := by
  have ha := a.toNat_lt
  have hb := b.toNat_lt
  obtain ⟨-, hthree⟩ := run_symbols (m := a.toNat / 4) (n := a.toNat % 4 * 16 + b.toNat / 16)
    (k := b.toNat % 16 * 4) (by omega) (by omega) (by omega) done offset ['=']
  obtain ⟨bits, hbits⟩ : ∃ bits, bits = (a.toNat / 4 * 64 + (a.toNat % 4 * 16 + b.toNat / 16)) * 64 +
      b.toNat % 16 * 4 := ⟨_, rfl⟩
  have hfirst : UInt8.ofNat (bits / 1024) = a := ofNat_eq (by omega)
  have hsecond : UInt8.ofNat (bits / 4) = b := ofNat_eq (by omega)
  have htext : encode [a, b] = [symbol (a.toNat / 4), symbol (a.toNat % 4 * 16 + b.toNat / 16),
      symbol (b.toNat % 16 * 4), '='] := by
    simp [encode, encodeOnto, group]
  rw [htext, hthree, ← hbits]
  simp [Reader.run, Reader.step, Reader.close, hfirst, hsecond]

theorem run_encode (bytes done : List UInt8) (offset : Nat) :
    Reader.run { bytes := done } offset (encode bytes) = .ok (done.reverse ++ bytes) := by
  match bytes with
  | [] => simp [encode, encodeOnto, Reader.run]
  | [a] => exact run_one a done offset
  | [a, b] => exact run_two a b done offset
  | a :: b :: c :: rest =>
    rw [encode_cons, run_group, run_encode rest]
    simp

/-- Bytes are read back. -/
theorem decode_encode (bytes : List UInt8) : decode (encode bytes) = .ok bytes :=
  run_encode bytes [] 0

end FlowScript.Base64
