import Yedis.Blocks
import Yedis.Buffer
import Yedis.Encoding
import Yedis.Gathered

/-!
# Reads of a session

`YedisSession::onRead` parses whatever one read delivered with a fresh parser,
drops it from the buffer and hands the gathered parameters on, whatever the
verdict. A stream of commands therefore arrives as it was sent exactly when every
read delivers one command.
-/

namespace Yedis
open IntToken

/-- `YedisSession::onRead`: the vector it hands to `TaskManager::producerTask`, and the buffer it
leaves. The parser reads the bytes it was pointed to, which `retrieve` does not touch. -/
def onRead (buffer : Buffer) : Except ParseFault (List Bytes × Buffer) := do
  let range := buffer.readable
  let buffer := buffer.retrieve buffer.readableBytes (le_refl _)
  let res ← ({} : YProtoParse).parseRequest range 0
  return (res.self.getParams, buffer)

/-- `TcpConnection::handleRead` for each read of a connection in turn. -/
def handleReads : Buffer → List Bytes → Except ParseFault (List (List Bytes))
  | _, [] => .ok []
  | inputBuffer, data :: reads => do
    let (vecCmd, inputBuffer) ← onRead (inputBuffer.readFd data)
    let handed ← handleReads inputBuffer reads
    return vecCmd :: handed

/-- A fresh parser on `r` gathers the parameters `c`. -/
def Hands (r : Bytes) (c : List Bytes) : Prop :=
  ∃ res : Parsed, ({} : YProtoParse).parseRequest r 0 = .ok res ∧ res.self.getParams = c

theorem resize_length (vec : List Bytes) (n : ℕ) : (resize vec n).length = n := by
  rw [resize, List.length_append, List.length_take, List.length_replicate]
  omega

theorem strlistLoop_length {buf : Bytes} {k n : ℕ} {self : YProtoParse} {ptr : ℕ} {res : Parsed}
    (h : strlistLoop buf k self ptr = .ok res) (hvec : self.vecParams.length ≤ n)
    (hnum : self.nNumOfParam + k ≤ n) : res.self.vecParams.length ≤ n := by
  induction k generalizing self ptr with
  | zero =>
      cases h
      rw [resize_length]
      exact hnum
  | succ k ih =>
      have hgrown : self.growParams.vecParams.length ≤ n ∧
          self.growParams.nNumOfParam = self.nNumOfParam := by
        unfold YProtoParse.growParams
        split_ifs
        · exact ⟨by rw [resize_length]; omega, rfl⟩
        · exact ⟨hvec, rfl⟩
      rw [strlistLoop] at h
      cases hstr : parseStr self.growParams.nParamLen buf ptr
          (self.growParams.vecParams.getD self.growParams.nNumOfParam []) with
      | error f =>
          rw [hstr] at h
          cases h
      | ok r =>
          have hstored : (self.growParams.storeParam r).vecParams.length ≤ n := by
            rw [YProtoParse.storeParam, List.length_set]
            exact hgrown.1
          rw [hstr] at h
          simp only [bind, Except.bind] at h
          split_ifs at h
          · apply ih h hstored
            simp only [YProtoParse.storeParam, hgrown.2]
            omega
          · cases h
            exact hstored

/-- The parser counts the parameters in an `int`. -/
theorem hands_length {r : Bytes} {c : List Bytes} (h : Hands r c) : c.length < 2147483648 := by
  obtain ⟨res, hres, rfl⟩ := h
  rw [parseRequest_eq rfl, List.drop_zero] at hres
  cases hscan : scanLine 42 r with
  | wait =>
      rw [hscan] at hres
      cases hres
      exact Nat.two_pow_pos 31
  | error =>
      rw [hscan] at hres
      cases hres
      exact Nat.two_pow_pos 31
  | ok count n =>
      obtain ⟨t, hcount, -⟩ := scanLine_ok hscan
      have hrange := (wrap32_range t.value).2
      rw [hscan] at hres
      simp only at hres
      split_ifs at hres
      · cases hres
        exact Nat.two_pow_pos 31
      · have hlen := strlistLoop_length (n := count.toNat) hres (Nat.zero_le _) (by simp)
        rw [YProtoParse.getParams]
        omega

theorem onRead_ok_iff (b : Buffer) (c : List Bytes) (b' : Buffer) :
    onRead b = .ok (c, b') ↔ Hands b.readable c ∧ b.retrieve b.readableBytes (le_refl _) = b' := by
  simp only [onRead, Hands, bind, Except.bind]
  cases ({} : YProtoParse).parseRequest b.readable 0 with
  | error f => simp
  | ok res => simp [pure, Except.pure]

/-- A new buffer that has received `data`. -/
theorem onRead_received {data : Bytes} {res : Parsed}
    (hres : ({} : YProtoParse).parseRequest data 0 = .ok res) :
    (Buffer.new.readFd data).readable = data ∧
      ∃ buffer', onRead (Buffer.new.readFd data) = .ok (res.self.getParams, buffer') := by
  have hdata : (Buffer.new.readFd data).readable = data := by
    rw [Buffer.readable_readFd, Buffer.readable_new, List.nil_append]
  exact ⟨hdata, _, (onRead_ok_iff _ _ _).mpr ⟨⟨res, by rw [hdata]; exact hres, rfl⟩, rfl⟩⟩

/-- Every read is parsed on its own. -/
theorem handleReads_ok_iff {b : Buffer} (hb : b.readable = []) (reads : List Bytes)
    (cmds : List (List Bytes)) :
    handleReads b reads = .ok cmds ↔ List.Forall₂ Hands reads cmds := by
  induction reads generalizing b cmds with
  | nil =>
      rw [handleReads, List.forall₂_nil_left_iff]
      simp [eq_comm]
  | cons r reads ih =>
      have hread : (b.readFd r).readable = r := by rw [Buffer.readable_readFd, hb, List.nil_append]
      have hempty : ((b.readFd r).retrieve (b.readFd r).readableBytes (le_refl _)).readable = [] := by
        rw [Buffer.readable_retrieve, ← Buffer.readable_length, List.drop_length]
      rw [handleReads, List.forall₂_cons_left_iff]
      constructor
      · intro h
        simp only [bind, Except.bind] at h
        cases hon : onRead (b.readFd r) with
        | error f =>
            rw [hon] at h
            cases h
        | ok out =>
            obtain ⟨c, b'⟩ := out
            obtain ⟨hc, rfl⟩ := (onRead_ok_iff _ _ _).mp hon
            simp only [hon] at h
            cases hrest : handleReads
                ((b.readFd r).retrieve (b.readFd r).readableBytes (le_refl _)) reads with
            | error f =>
                simp only [hrest] at h
                cases h
            | ok handed =>
                simp only [hrest] at h
                cases h
                rw [hread] at hc
                exact ⟨c, handed, hc, (ih hempty handed).mp hrest, rfl⟩
      · rintro ⟨c, rest, hc, hrest, rfl⟩
        rw [← hread] at hc
        have hon := (onRead_ok_iff _ _ _).mpr ⟨hc, rfl⟩
        simp only [bind, Except.bind, hon, (ih hempty rest).mpr hrest]
        rfl

theorem count_star_digits {ds : Bytes} (h : ∀ c ∈ ds, isDigit c = true) : ds.count 42 = 0 := by
  rw [List.count_eq_zero]
  intro hmem
  exact absurd (h 42 hmem) (by decide)

theorem count_star_encodeBulk (v : Bytes) : (encodeBulk v).count 42 = v.count 42 := by
  simp [encodeBulk, crlf, count_star_digits (decimal_digits _)]

theorem count_star_encodeCommand (ps : List Bytes) :
    (encodeCommand ps).count 42 = 1 + (ps.map (List.count 42)).sum := by
  have hbulks : (ps.flatMap encodeBulk).count 42 = (ps.map (List.count 42)).sum := by
    induction ps with
    | nil => rfl
    | cons v ps ih =>
        rw [List.flatMap_cons, List.count_append, count_star_encodeBulk, ih, List.map_cons,
          List.sum_cons]
  rw [encodeCommand]
  simp [crlf, count_star_digits (decimal_digits _), hbulks]
  omega

theorem count_star_itemsText (is : List Item) :
    ((payloads is).map (List.count 42)).sum ≤ (itemsText is).count 42 := by
  induction is with
  | nil => simp
  | cons i is ih =>
      have hi : i.payload.count 42 ≤ i.text.count 42 := by
        cases i with
        | null t h => simp [Item.payload]
        | bulk t v h =>
            simp only [Item.payload, Item.text, Item.body, List.count_append]
            omega
      rw [payloads_cons, List.map_cons, List.sum_cons, itemsText_cons, List.count_append]
      omega

/-- A read that hands on a command starts with a `'*'`, and has as many of them as the command's
encoding has. -/
theorem star_of_gathered {r : Bytes} {c : List Bytes} (h : Gathered r c) (hne : c ≠ []) :
    r.head? = some 42 ∧ (encodeCommand c).count 42 ≤ r.count 42 := by
  rw [count_star_encodeCommand]
  cases h with
  | none => exact absurd rfl hne
  | cutCount t hb =>
      rw [hb]
      exact ⟨rfl, by simp⟩
  | items t is s hb k hk =>
      have hitems := count_star_itemsText is
      rw [hb]
      refine ⟨rfl, ?_⟩
      simp only [List.map_append, List.map_replicate, List.count_nil, List.sum_append,
        List.sum_replicate, List.count_append, List.count_cons, beq_self_eq_true, if_true]
      simp
      omega

theorem star_of_hands {reads : List Bytes} {cmds : List (List Bytes)}
    (h : List.Forall₂ Hands reads cmds) (hne : ∀ c ∈ cmds, c ≠ []) :
    (∀ r ∈ reads, r.head? = some 42) ∧
      List.Forall₂ (fun r e => e.count 42 ≤ r.count 42) reads (cmds.map encodeCommand) := by
  induction h with
  | nil => exact ⟨by simp, .nil⟩
  | cons hands htail ih =>
      obtain ⟨res, hres, rfl⟩ := hands
      obtain ⟨hheads, hcounts⟩ := ih fun c hc => hne c (List.mem_cons_of_mem _ hc)
      obtain ⟨hhead, hcount⟩ := star_of_gathered (parseRequest_gathered hres) (hne _ (by simp))
      exact ⟨List.forall_mem_cons.mpr ⟨hhead, hheads⟩, .cons hcount hcounts⟩

theorem hands_encodeCommand {cmds : List (List Bytes)}
    (h : ∀ c ∈ cmds, (encodeCommand c).length < 2147483648) :
    List.Forall₂ Hands (cmds.map encodeCommand) cmds := by
  rw [List.forall₂_map_left_iff, List.forall₂_same]
  intro c hc
  exact ⟨_, parseRequest_encodeCommand (r := []) (List.append_nil _).symm (h c hc), rfl⟩

/-- A stream of commands is handed on as it was sent exactly when each read is one command. -/
theorem stream_framing (cmds : List (List Bytes)) (hcmds : ∀ c ∈ cmds, c ≠ [])
    (reads : List Bytes) (hflat : reads.flatten = (cmds.map encodeCommand).flatten)
    (hsize : reads.flatten.length < 2147483648) :
    handleReads Buffer.new reads = .ok cmds ↔ reads = cmds.map encodeCommand := by
  rw [handleReads_ok_iff Buffer.readable_new]
  constructor
  · intro h
    obtain ⟨hheads, hcounts⟩ := star_of_hands h hcmds
    refine Blocks.cut_unique hheads ?_ hcounts hflat
    intro e he
    obtain ⟨c, -, rfl⟩ := List.mem_map.mp he
    rfl
  · rintro rfl
    apply hands_encodeCommand
    intro c hc
    have hsub := List.sublist_flatten_of_mem (List.mem_map_of_mem (f := encodeCommand) hc)
    exact hsub.length_le.trans_lt hsize

/-- Two commands in two reads arrive as they were sent. -/
theorem stream_framing_one_each :
    handleReads Buffer.new ([[ascii "PING"], [ascii "GET", ascii "k"]].map encodeCommand) =
      .ok [[ascii "PING"], [ascii "GET", ascii "k"]] :=
  (stream_framing [[ascii "PING"], [ascii "GET", ascii "k"]] (by decide) _ rfl (by decide)).mpr rfl

/-- Of two commands in one read the second is lost. -/
theorem stream_framing_lost :
    handleReads Buffer.new [encodeCommand [ascii "PING"] ++ encodeCommand [ascii "GET", ascii "k"]] =
        .ok [[ascii "PING"]] ∧
      [[ascii "PING"]] ≠ [[ascii "PING"], [ascii "GET", ascii "k"]] := by
  refine ⟨?_, by decide⟩
  rw [handleReads_ok_iff Buffer.readable_new]
  exact .cons ⟨_, parseRequest_encodeCommand rfl (by decide), rfl⟩ .nil

end Yedis
