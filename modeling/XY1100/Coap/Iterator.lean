import XY1100.Coap.Parse
import XY1100.Coap.OptionFilter

/-!
# Coap — reading the options of a message

The option iterator of `option.c`, `coap_check_option`, and `coap_option_check_critical` of
`net.c`.  A handler walks over the options of a received PDU with it, all of them or those a
filter lets through, and reads the values with the accessors.

* `next_cons`: one call of `coap_option_next` delivers the next option the filter lets through.
* `handler_reads`: all calls together deliver the options of the message the filter lets through,
  each once, in order, with its number and its value; `coap_check_option` finds the first option
  of a number.
* `critical_options`: a message passes if each critical option of it is known.
-/

namespace XY1100.Coap
open Support (Buf positions readWhile)

/-! ### The code -/

/-- A `coap_opt_iterator_t`. -/
structure CoapOptIterator where
  length : Nat := 0
  type : UInt16 := 0
  bad : Bool := false
  filtered : Bool := false
  nextOption : Nat
  filter : OptFilter := coapOptionFilterClear

/-- `coap_option_iterator_init`; the filter `none` is `COAP_OPT_ALL`. -/
def coapOptionIteratorInit (pdu : CoapPdu) (filter : Option OptFilter) : CoapOptIterator :=
  let oi : CoapOptIterator := { nextOption := pdu.token + pdu.tokenLength.toNat }
  if pdu.token + pdu.usedSize ≤ oi.nextOption then { oi with bad := true }
  else
    let oi := { oi with length := pdu.usedSize - pdu.tokenLength.toNat }
    match filter with
    | none => oi
    | some filter => { oi with filter := filter, filtered := true }

/-- `opt_finished`. -/
def optFinished (m : Buf) (oi : CoapOptIterator) : Bool :=
  oi.bad || oi.length = 0 || m oi.nextOption = COAP_PAYLOAD_START

/-- The loop of `coap_option_next`. -/
def nextLoop (m : Buf) : Nat → CoapOptIterator → Option Nat × CoapOptIterator
  | n, oi =>
    match n, coapOptParse m oi.nextOption oi.length with
    | n + 1, some (option, optsize) =>
      let next :=
        { oi with
          nextOption := oi.nextOption + optsize, length := oi.length - optsize,
          type := oi.type + option.delta }
      if next.filtered = false ∨ coapOptionFilterGet next.filter next.type = true then
        (some oi.nextOption, next)
      else nextLoop m n next
    | _, _ => (none, { oi with bad := true })

/-- `coap_option_next`: the address of an option, and the iterator after it.  An option takes at
least a byte, so the loop takes at most `length + 1` turns. -/
def coapOptionNext (m : Buf) (oi : CoapOptIterator) : Option Nat × CoapOptIterator :=
  if optFinished m oi then (none, { oi with bad := true }) else nextLoop m (oi.length + 1) oi

/-- `coap_check_option`. -/
def coapCheckOption (pdu : CoapPdu) (type : UInt16) : Option Nat × CoapOptIterator :=
  coapOptionNext pdu.mem
    (coapOptionIteratorInit pdu (some (coapOptionFilterSet coapOptionFilterClear type).1))

/-- The value a handler reads off an option with the accessors. -/
def optValue (m : Buf) (opt : Nat) : List UInt8 :=
  match coapOptValue m opt with
  | none => []
  | some value => m.read value (coapOptLength m opt).toNat

/-- The calls of `coap_option_next` until it returns `NULL`: numbers and values. -/
def deliveries (m : Buf) : Nat → CoapOptIterator → List (UInt16 × List UInt8)
  | 0, _ => []
  | n + 1, oi =>
    match coapOptionNext m oi with
    | (none, _) => []
    | (some opt, oi) => (oi.type, optValue m opt) :: deliveries m n oi

/-! ### The options in their places -/

/-- An option of a message: where it lies, its number and its value. -/
structure Placed where
  address : Nat
  number : UInt16
  value : List UInt8
  deriving DecidableEq

/-- The options from an address on, behind a number. -/
def placed (address : Nat) (number : UInt16) : List (Nat × List UInt8) → List Placed
  | [] => []
  | o :: os =>
    ⟨address, number + UInt16.ofNat o.1, o.2⟩ ::
      placed (address + (optionBytes o).length) (number + UInt16.ofNat o.1) os

/-- The numbers and values of a message's options. -/
def Message.numbers (msg : Message) : List (UInt16 × List UInt8) :=
  positions 0 (msg.options.map fun o => (UInt16.ofNat o.1, o.2))

theorem placed_numbers (address : Nat) (number : UInt16) (options : List (Nat × List UInt8)) :
    (placed address number options).map (fun p => (p.number, p.value)) =
      positions number (options.map fun o => (UInt16.ofNat o.1, o.2)) := by
  induction options generalizing address number with
  | nil => rfl
  | cons o os ih => simp only [placed, List.map_cons, ih, Support.positions_cons]

/-! ### One call -/

/-- The iterator stands in front of options and a payload. -/
structure Ahead (m : Buf) (oi : CoapOptIterator) (options : List (Nat × List UInt8))
    (payload : Option (List UInt8)) : Prop where
  ok : ∀ o ∈ options, OptionOk o
  bytes : m.read oi.nextOption oi.length = options.flatMap optionBytes ++ payloadBytes payload
  good : oi.bad = false

/-- The filter of an iterator lets a number through. -/
def CoapOptIterator.passes (oi : CoapOptIterator) (number : UInt16) : Bool :=
  !oi.filtered || coapOptionFilterGet oi.filter number

/-- The iterator behind an option. -/
def CoapOptIterator.after (oi : CoapOptIterator) (o : Nat × List UInt8) : CoapOptIterator :=
  { oi with
    nextOption := oi.nextOption + (optionBytes o).length,
    length := oi.length - (optionBytes o).length, type := oi.type + UInt16.ofNat o.1 }

section
variable {m : Buf} {oi : CoapOptIterator} {o : Nat × List UInt8} {options : List (Nat × List UInt8)}
  {payload : Option (List UInt8)}

/-- The parser finds the option the iterator stands in front of. -/
theorem Ahead.parse (h : Ahead m oi (o :: options) payload) :
    coapOptParse m oi.nextOption oi.length =
      some (⟨UInt16.ofNat o.1, o.2.length,
        oi.nextOption + ((optionBytes o).length - o.2.length)⟩, (optionBytes o).length) := by
  have hb := h.bytes
  rw [List.flatMap_cons, List.append_assoc] at hb
  have hlen := congrArg List.length hb
  rw [Support.Buf.length_read, List.length_append] at hlen
  rw [coapOptParse_eq, hb, delimited_option.read_append (h.ok o List.mem_cons_self)]
  simp only [Option.map_some, Option.some.injEq, Prod.mk.injEq, CoapOption.mk.injEq, true_and]
  omega

/-- The parser finds nothing at the end of the options. -/
theorem Ahead.parse_nil (h : Ahead m oi [] payload) :
    coapOptParse m oi.nextOption oi.length = none := by
  rw [coapOptParse_eq, h.bytes, List.flatMap_nil, List.nil_append, readOption_payload]
  rfl

theorem Ahead.after (h : Ahead m oi (o :: options) payload) :
    Ahead m (oi.after o) options payload where
  ok o' ho' := h.ok o' (List.mem_cons_of_mem o ho')
  bytes := by
    have hb := h.bytes
    rw [List.flatMap_cons, List.append_assoc] at hb
    have hlen := congrArg List.length hb
    have hrest := Support.Buf.read_of_append hb
    rw [Support.Buf.length_read, List.length_append] at hlen
    simp only [CoapOptIterator.after]
    rwa [show oi.length - (options.flatMap optionBytes ++ payloadBytes payload).length =
        (optionBytes o).length by omega,
      show (options.flatMap optionBytes ++ payloadBytes payload).length =
        oi.length - (optionBytes o).length by omega] at hrest
  good := h.good

/-- The value of the option is read off it with the accessors, in a datagram. -/
theorem Ahead.optValue_eq (h : Ahead m oi (o :: options) payload) (hlen : oi.length < 65536) :
    optValue m oi.nextOption = o.2 := by
  obtain ⟨-, hl, hv⟩ := coapOpt_accessors h.parse
  have hb := h.bytes
  rw [List.flatMap_cons, List.append_assoc, optionBytes, List.append_assoc, ← List.append_assoc]
    at hb
  have hhead : (optionBytes o).length = (optionHeader o.1 o.2.length).length + o.2.length := by
    rw [optionBytes, List.length_append]
  have htotal := congrArg List.length hb
  rw [Support.Buf.length_read, List.length_append, List.length_append] at htotal
  have hsmall : o.2.length < 65536 := by omega
  rw [optValue, hv]
  simp only [hl, UInt16.toNat_ofNat', Nat.mod_eq_of_lt hsmall]
  rw [hhead, Nat.add_sub_cancel]
  have hsplit : oi.length = (optionHeader o.1 o.2.length).length + (o.2.length +
      (options.flatMap optionBytes ++ payloadBytes payload).length) := by omega
  rw [hsplit, Support.Buf.read_add, Support.Buf.read_add, List.append_assoc] at hb
  obtain ⟨-, hrest⟩ := List.append_inj hb (by simp)
  exact (List.append_inj hrest (by simp)).1

/-- The turns left over do not matter. -/
theorem nextLoop_fuel {n k : Nat} (hn : oi.length < n) (hk : oi.length < k) :
    nextLoop m n oi = nextLoop m k oi := by
  induction n generalizing oi k with
  | zero => omega
  | succ n ih =>
    obtain ⟨k, rfl⟩ : ∃ j, k = j + 1 := ⟨k - 1, by omega⟩
    unfold nextLoop
    cases hp : coapOptParse m oi.nextOption oi.length with
    | none => rfl
    | some p =>
      obtain ⟨option, optsize⟩ := p
      have hpos : 0 < optsize ∧ optsize ≤ oi.length := by
        rw [coapOptParse_eq] at hp
        cases hr : readOption (m.read oi.nextOption oi.length) with
        | none => simp [hr] at hp
        | some q =>
          have hlt := delimited_option.length_lt (a := q.1) (t := q.2) hr
          rw [Support.Buf.length_read] at hlt
          rw [hr, Option.map_some, Option.some.injEq, Prod.mk.injEq] at hp
          omega
      simp only
      split_ifs
      · rfl
      · exact ih (by simp only; omega) (by simp only; omega)

/-- At the end of the options the iterator stops. -/
theorem next_nil (h : Ahead m oi [] payload) :
    coapOptionNext m oi = (none, { oi with bad := true }) := by
  unfold coapOptionNext
  split
  · rfl
  · unfold nextLoop
    rw [h.parse_nil]

/-- Where the check finds an end the parser finds nothing. -/
theorem parse_of_finished (hgood : oi.bad = false) (hend : optFinished m oi = true) :
    coapOptParse m oi.nextOption oi.length = none := by
  simp only [optFinished, hgood, Bool.false_or, Bool.or_eq_true, decide_eq_true_eq] at hend
  rw [coapOptParse_eq]
  by_cases hzero : oi.length = 0
  · rw [hzero]
    rfl
  · have hmark := hend.resolve_left hzero
    rw [show oi.length = 1 + (oi.length - 1) by omega, Support.Buf.read_add]
    simp [Support.Buf.read, hmark, readOption_marker]

theorem Ahead.not_finished (h : Ahead m oi (o :: options) payload) : optFinished m oi = false := by
  refine eq_false_of_ne_true fun hend => ?_
  have hnone := parse_of_finished h.good hend
  rw [h.parse] at hnone
  cases hnone

/-- An option takes at least a byte. -/
theorem Ahead.after_length_lt (h : Ahead m oi (o :: options) payload) :
    (oi.after o).length < oi.length := by
  have hne : 0 < (optionBytes o).length :=
    List.length_pos_iff.mpr (delimited_option.ne_nil o (h.ok o List.mem_cons_self))
  have hlen := congrArg List.length h.bytes
  rw [Support.Buf.length_read, List.flatMap_cons, List.append_assoc, List.length_append] at hlen
  simp only [CoapOptIterator.after]
  omega

/-- An option the filter lets through is delivered, another one is passed over. -/
theorem next_cons (h : Ahead m oi (o :: options) payload) :
    coapOptionNext m oi =
      if oi.passes (oi.type + UInt16.ofNat o.1) then (some oi.nextOption, oi.after o)
      else coapOptionNext m (oi.after o) := by
  have hstep : nextLoop m (oi.length + 1) oi =
      if oi.passes (oi.type + UInt16.ofNat o.1) then (some oi.nextOption, oi.after o)
      else nextLoop m oi.length (oi.after o) := by
    conv_lhs => unfold nextLoop
    rw [h.parse]
    simp only [CoapOptIterator.passes, Bool.or_eq_true, Bool.not_eq_true']
    rfl
  rw [coapOptionNext, if_neg (by simp [h.not_finished]), hstep]
  split_ifs with hpass
  · rfl
  · unfold coapOptionNext
    have hshort := h.after_length_lt
    by_cases hend : optFinished m (oi.after o) = true
    · -- the check the loop does not make again finds what the parser finds
      rw [if_pos hend]
      have hnone := parse_of_finished h.after.good hend
      obtain ⟨n, hn⟩ := Nat.exists_eq_succ_of_ne_zero (Nat.ne_of_gt (Nat.zero_lt_of_lt hshort))
      rw [hn]
      unfold nextLoop
      rw [hnone]
    · rw [if_neg hend]
      exact nextLoop_fuel hshort (by omega)

/-- The numbers and values the filter of an iterator lets through. -/
def CoapOptIterator.accepted (oi : CoapOptIterator) (options : List Placed) :
    List (UInt16 × List UInt8) :=
  (options.filter fun p => oi.passes p.number).map fun p => (p.number, p.value)

/-- All calls together deliver what the filter lets through, in order. -/
theorem Ahead.deliveries_eq (h : Ahead m oi options payload) (hlen : oi.length < 65536) {n : Nat}
    (hn : options.length < n) :
    deliveries m n oi = oi.accepted (placed oi.nextOption oi.type options) := by
  induction options generalizing oi n with
  | nil =>
    obtain ⟨n, rfl⟩ : ∃ k, n = k + 1 := ⟨n - 1, by simp only [List.length_nil] at hn; omega⟩
    simp [deliveries, next_nil h, CoapOptIterator.accepted, placed]
  | cons o options ih =>
    obtain ⟨n, rfl⟩ : ∃ k, n = k + 1 := ⟨n - 1, by omega⟩
    have hlen' : (oi.after o).length < 65536 := by
      simp only [CoapOptIterator.after]
      omega
    simp only [List.length_cons] at hn
    have hpass (number : UInt16) : (oi.after o).passes number = oi.passes number := rfl
    have hrest (k : Nat) (hk : options.length < k) := ih h.after hlen' (n := k) hk
    simp only [CoapOptIterator.accepted, hpass] at hrest
    simp only [CoapOptIterator.accepted, placed, List.filter_cons]
    by_cases hp : oi.passes (oi.type + UInt16.ofNat o.1) = true
    · rw [deliveries, next_cons h, if_pos hp, if_pos hp]
      simp only [List.map_cons, h.optValue_eq hlen, hrest n (by omega)]
      rfl
    · rw [if_neg hp]
      -- the option is passed over within the call
      have hskip : deliveries m (n + 1) oi = deliveries m (n + 1) (oi.after o) := by
        simp only [deliveries, next_cons h, if_neg hp]
      rw [hskip, hrest (n + 1) (by omega)]
      rfl

end

/-! ### The options of a received message -/

/-- Where the iterator starts, in a PDU with something behind its token. -/
theorem init_eq {pdu : CoapPdu} (filter : Option OptFilter)
    (h : pdu.tokenLength.toNat < pdu.usedSize) :
    coapOptionIteratorInit pdu filter =
      { nextOption := pdu.token + pdu.tokenLength.toNat,
        length := pdu.usedSize - pdu.tokenLength.toNat, filtered := filter.isSome,
        filter := filter.getD coapOptionFilterClear } := by
  unfold coapOptionIteratorInit
  rw [if_neg (by simp only; omega)]
  cases filter <;> rfl

theorem HoldsMessage.token_lt {pdu : CoapPdu} {msg : Message} (h : HoldsMessage pdu msg)
    (htail : msg.tail ≠ []) : pdu.tokenLength.toNat < pdu.usedSize := by
  have hpos := List.length_pos_iff.mpr htail
  have hused := h.usedSize
  have htok := h.tokenLength
  omega

/-- The iterator over a received message stands in front of its options. -/
theorem init_ahead {pdu : CoapPdu} {msg : Message} (hok : msg.Ok) (h : HoldsMessage pdu msg)
    (filter : Option OptFilter) (htail : msg.tail ≠ []) :
    Ahead pdu.mem (coapOptionIteratorInit pdu filter) msg.options msg.payload ∧
      (coapOptionIteratorInit pdu filter).length = msg.tail.length := by
  have hused := h.usedSize
  have htok := h.tokenLength
  have hlen : pdu.usedSize - pdu.tokenLength.toNat = msg.tail.length := by omega
  have hread := h.tail
  rw [← htok, ← hlen] at hread
  rw [init_eq filter (h.token_lt htail)]
  exact ⟨⟨hok.options, hread, rfl⟩, hlen⟩

/-- A filter lets a number through. -/
def letsThrough (filter : Option OptFilter) (number : UInt16) : Bool :=
  match filter with
  | none => true
  | some f => coapOptionFilterGet f number

theorem init_passes {pdu : CoapPdu} (filter : Option OptFilter) (number : UInt16)
    (h : pdu.tokenLength.toNat < pdu.usedSize) :
    (coapOptionIteratorInit pdu filter).passes number = letsThrough filter number := by
  rw [init_eq filter h]
  cases filter <;> rfl

/-- A message without options or payload lets the iterator stop at once. -/
theorem init_bad {pdu : CoapPdu} {msg : Message} (h : HoldsMessage pdu msg)
    (filter : Option OptFilter)
    (htail : msg.tail = []) : (coapOptionIteratorInit pdu filter).bad = true := by
  have hused := h.usedSize
  have htok := h.tokenLength
  rw [htail, List.length_nil] at hused
  unfold coapOptionIteratorInit
  rw [if_pos (by simp only; omega)]

theorem options_of_tail_nil {msg : Message} (hok : msg.Ok) (htail : msg.tail = []) :
    msg.options = [] := by
  obtain ⟨ho, -⟩ := List.append_eq_nil_iff.mp htail
  have hle := delimited_option.length_le_flatMap hok.options
  rw [ho, List.length_nil] at hle
  exact List.length_eq_zero_iff.mp (Nat.le_zero.mp hle)

theorem placed_filter (p : UInt16 → Bool) (address : Nat) (number : UInt16)
    (options : List (Nat × List UInt8)) :
    ((placed address number options).filter fun o => p o.number).map
        (fun o => (o.number, o.value)) =
      (positions number (options.map fun o => (UInt16.ofNat o.1, o.2))).filter fun o => p o.1 := by
  rw [← placed_numbers address number options, List.filter_map]
  rfl

/-- The calls of the iterator deliver the options of a received message that the filter lets
through. -/
theorem deliveries_message {pdu : CoapPdu} {msg : Message} (hok : msg.Ok) (h : HoldsMessage pdu msg)
    (hsize : pdu.usedSize < 65536) (filter : Option OptFilter) :
    deliveries pdu.mem (pdu.usedSize + 1) (coapOptionIteratorInit pdu filter) =
      msg.numbers.filter fun o => letsThrough filter o.1 := by
  have hused := h.usedSize
  by_cases htail : msg.tail = []
  · have hbad := init_bad h filter htail
    have hstop : coapOptionNext pdu.mem (coapOptionIteratorInit pdu filter) =
        (none, { coapOptionIteratorInit pdu filter with bad := true }) := by
      rw [coapOptionNext, if_pos (by simp [optFinished, hbad])]
    simp [deliveries, hstop, Message.numbers, options_of_tail_nil hok htail]
  · obtain ⟨hahead, hlen⟩ := init_ahead hok h filter htail
    have hcount : msg.options.length ≤ msg.tail.length := by
      have := delimited_option.length_le_flatMap hok.options
      rw [Message.tail, List.length_append]
      omega
    rw [hahead.deliveries_eq (by omega) (by omega), CoapOptIterator.accepted]
    simp only [init_passes filter _ (h.token_lt htail)]
    rw [placed_filter]
    rw [init_eq filter (h.token_lt htail)]
    rfl

/-! ### Looking an option up -/

/-- One call finds the first option the filter lets through. -/
theorem Ahead.next_value {m : Buf} {oi : CoapOptIterator} {options : List (Nat × List UInt8)}
    {payload : Option (List UInt8)} (h : Ahead m oi options payload) (hlen : oi.length < 65536) :
    (coapOptionNext m oi).1.map (optValue m) =
      ((positions oi.type (options.map fun o => (UInt16.ofNat o.1, o.2))).find?
        fun o => oi.passes o.1).map Prod.snd := by
  induction options generalizing oi with
  | nil => simp [next_nil h]
  | cons o options ih =>
    have hlen' : (oi.after o).length < 65536 := by
      simp only [CoapOptIterator.after]
      omega
    rw [next_cons h, List.map_cons, Support.positions_cons, List.find?_cons]
    by_cases hp : oi.passes (oi.type + UInt16.ofNat o.1) = true
    · simp [hp, h.optValue_eq hlen]
    · rw [if_neg hp, ih h.after hlen']
      simp only [hp]
      rfl

/-- The filter of `coap_check_option` lets one number through. -/
theorem checkFilter_get (type number : UInt16) :
    coapOptionFilterGet (coapOptionFilterSet coapOptionFilterClear type).1 number = true ↔
      number = type := by
  have h := (filterOp_refines filterHolds_clear type .set).1
  rw [coapOptionFilterSet, filterGet_iff h]
  have hempty : ¬ FilterSpec.Has ⟨∅, ∅⟩ type := by
    unfold FilterSpec.Has
    split <;> simp
  have hroom : ¬ FilterSpec.Full ⟨∅, ∅⟩ type := by
    unfold FilterSpec.Full
    split <;> simp [COAP_OPT_FILTER_LONG, COAP_OPT_FILTER_SHORT]
  have short {a : UInt16} (ha : isLongOption a = false) : a.toNat ≤ 255 := by
    simp only [isLongOption, decide_eq_false_iff_not, UInt16.lt_iff_toNat_lt] at ha
    exact Nat.not_lt.mp ha
  have inj {a b : UInt16} (ha : isLongOption a = false) (hb : isLongOption b = false) :
      a.toUInt8 = b.toUInt8 ↔ a = b := by
    have := short ha
    have := short hb
    rw [← UInt8.toNat_inj, ← UInt16.toNat_inj, UInt16.toNat_toUInt8, UInt16.toNat_toUInt8]
    omega
  simp only [FilterSpec.op, if_neg hempty, if_neg hroom]
  cases hlt : isLongOption type <;> cases hln : isLongOption number
  · simp [FilterSpec.Has, hln, inj hln hlt]
  · simp only [FilterSpec.Has, hln, Bool.false_eq_true, if_false, if_true]
    refine iff_of_false (by simp) fun he => ?_
    simp [he, hlt] at hln
  · simp only [FilterSpec.Has, hln, Bool.false_eq_true, if_false, if_true]
    refine iff_of_false (by simp) fun he => ?_
    simp [he, hlt] at hln
  · simp [FilterSpec.Has, hln]

/-- `coap_check_option` finds the first option of a number, and its value can be read. -/
theorem coapCheckOption_value {pdu : CoapPdu} {msg : Message} (hok : msg.Ok)
    (h : HoldsMessage pdu msg)
    (hsize : pdu.usedSize < 65536) (type : UInt16) :
    (coapCheckOption pdu type).1.map (optValue pdu.mem) =
      (msg.numbers.find? fun o => o.1 = type).map Prod.snd := by
  have hused := h.usedSize
  unfold coapCheckOption
  generalize hfilter : (coapOptionFilterSet coapOptionFilterClear type).1 = filter
  by_cases htail : msg.tail = []
  · have hbad := init_bad h (some filter) htail
    rw [coapOptionNext, if_pos (by simp [optFinished, hbad])]
    simp [Message.numbers, options_of_tail_nil hok htail]
  · obtain ⟨hahead, hlen⟩ := init_ahead hok h (some filter) htail
    rw [hahead.next_value (by omega)]
    have hpass : (fun o : UInt16 × List UInt8 =>
        (coapOptionIteratorInit pdu (some filter)).passes o.1) = fun o => decide (o.1 = type) := by
      funext o
      rw [init_passes _ _ (h.token_lt htail), letsThrough, ← hfilter, Bool.eq_iff_iff,
        checkFilter_get, decide_eq_true_eq]
    rw [hpass, init_eq _ (h.token_lt htail)]
    rfl

/-! ### Critical options -/

/-- The critical options `coap_option_check_critical` knows itself. -/
def builtinCritical : List UInt16 :=
  [1, LIBCOAP_COAP_OPTION_URI_HOST, 5, LIBCOAP_COAP_OPTION_URI_PORT, LIBCOAP_COAP_OPTION_URI_PATH,
    LIBCOAP_COAP_OPTION_URI_QUERY, 17, LIBCOAP_COAP_OPTION_PROXY_URI, 39,
    LIBCOAP_COAP_OPTION_BLOCK2, LIBCOAP_COAP_OPTION_BLOCK1]

/-- A number is a critical option nobody knows. -/
def unknownCritical (known : OptFilter) (number : UInt16) : Bool :=
  number &&& 0x01 ≠ 0 ∧ number ∉ builtinCritical ∧ coapOptionFilterGet known number = false

/-- The loop of `coap_option_check_critical`: whether the message passes, and the filter the
unknown numbers are put into.  `coap_option_filter_set` never returns `-1`, so the loop goes on. -/
def checkCriticalLoop (m : Buf) (known : OptFilter) :
    Nat → CoapOptIterator → Bool → OptFilter → Bool × OptFilter
  | 0, _, ok, unknown => (ok, unknown)
  | n + 1, oi, ok, unknown =>
    match coapOptionNext m oi with
    | (none, _) => (ok, unknown)
    | (some _, oi) =>
      if unknownCritical known oi.type then
        checkCriticalLoop m known n oi false (coapOptionFilterSet unknown oi.type).1
      else checkCriticalLoop m known n oi ok unknown

/-- `coap_option_check_critical`. -/
def coapOptionCheckCritical (known : OptFilter) (pdu : CoapPdu) (unknown : OptFilter) :
    Bool × OptFilter :=
  checkCriticalLoop pdu.mem known (pdu.usedSize + 1) (coapOptionIteratorInit pdu none) true unknown

/-- The loop looks at every option, and puts each unknown one into the filter. -/
theorem Ahead.checkCritical {m : Buf} {known unknown : OptFilter} {oi : CoapOptIterator}
    {options : List (Nat × List UInt8)} {payload : Option (List UInt8)}
    (h : Ahead m oi options payload) (hall : oi.filtered = false) (ok : Bool) {n : Nat}
    (hn : options.length < n) :
    checkCriticalLoop m known n oi ok unknown =
      let bad := ((positions oi.type (options.map fun o => (UInt16.ofNat o.1, o.2))).map
        Prod.fst).filter (unknownCritical known)
      (ok && bad.isEmpty, (filterRun unknown (bad.map fun number => (number, .set))).2) := by
  induction options generalizing oi n ok unknown with
  | nil =>
    obtain ⟨n, rfl⟩ : ∃ k, n = k + 1 := ⟨n - 1, by simp only [List.length_nil] at hn; omega⟩
    simp [checkCriticalLoop, next_nil h, filterRun]
  | cons o options ih =>
    obtain ⟨n, rfl⟩ : ∃ k, n = k + 1 := ⟨n - 1, by omega⟩
    simp only [List.length_cons] at hn
    have hpass : oi.passes (oi.type + UInt16.ofNat o.1) = true := by
      simp [CoapOptIterator.passes, hall]
    have hnext := next_cons h
    rw [if_pos hpass] at hnext
    have htype : (oi.after o).type = oi.type + UInt16.ofNat o.1 := rfl
    rw [checkCriticalLoop, hnext]
    simp only [htype, List.map_cons, Support.positions_cons, List.filter_cons]
    by_cases hbad : unknownCritical known (oi.type + UInt16.ofNat o.1) = true
    · rw [if_pos hbad, if_pos hbad, ih h.after hall false (by omega)]
      simp [filterRun, coapOptionFilterSet, htype]
    · rw [if_neg hbad, if_neg hbad, ih h.after hall ok (by omega)]
      simp only [htype]

/-- The check of a received message: it passes if no critical option is unknown, and the unknown
ones are put into the filter in their order. -/
theorem coapOptionCheckCritical_message {pdu : CoapPdu} {msg : Message} (hok : msg.Ok)
    (h : HoldsMessage pdu msg) (known unknown : OptFilter) :
    coapOptionCheckCritical known pdu unknown =
      let bad := (msg.numbers.map Prod.fst).filter (unknownCritical known)
      (bad.isEmpty, (filterRun unknown (bad.map fun number => (number, .set))).2) := by
  have hused := h.usedSize
  unfold coapOptionCheckCritical
  by_cases htail : msg.tail = []
  · have hbad := init_bad h none htail
    have hstop : coapOptionNext pdu.mem (coapOptionIteratorInit pdu none) =
        (none, { coapOptionIteratorInit pdu none with bad := true }) := by
      rw [coapOptionNext, if_pos (by simp [optFinished, hbad])]
    simp [checkCriticalLoop, hstop, Message.numbers, options_of_tail_nil hok htail, filterRun]
  · obtain ⟨hahead, -⟩ := init_ahead hok h none htail
    have hcount : msg.options.length ≤ msg.tail.length := by
      have := delimited_option.length_le_flatMap hok.options
      rw [Message.tail, List.length_append]
      omega
    have hall : (coapOptionIteratorInit pdu none).filtered = false := by
      rw [init_eq none (h.token_lt htail)]
      rfl
    have htype : (coapOptionIteratorInit pdu none).type = 0 := by
      rw [init_eq none (h.token_lt htail)]
    rw [hahead.checkCritical hall true (by omega), htype]
    simp only [Bool.true_and]
    rfl

/-! ### Accepted datagrams -/

/-- **A handler reads the message.**  In an accepted datagram the iterator delivers the options of
the message the filter lets through, in order, and `coap_check_option` the first of a number. -/
theorem handler_reads {mem : Buf} {len : UInt16} (h : (coapRecv mem len).2 = true) :
    ∃ msg : Message, msg.Ok ∧ mem.read 0 len.toNat = msg.bytes ∧
      let pdu := (coapRecv mem len).1
      deliveries pdu.mem (pdu.usedSize + 1) (coapOptionIteratorInit pdu none) = msg.numbers ∧
      (∀ ops : List (UInt16 × FilterOp),
        deliveries pdu.mem (pdu.usedSize + 1)
            (coapOptionIteratorInit pdu (some (filterRun coapOptionFilterClear ops).2)) =
          msg.numbers.filter fun o => (FilterSpec.run ⟨∅, ∅⟩ ops).2.Has o.1) ∧
      ∀ type : UInt16, (coapCheckOption pdu type).1.map (optValue pdu.mem) =
        (msg.numbers.find? fun o => o.1 = type).map Prod.snd := by
  obtain ⟨msg, hok, hbytes⟩ := coapRecv_sound h
  have hholds := (coapRecv_message hok hbytes).2
  have hsize : (coapRecv mem len).1.usedSize < 65536 := by
    have := len.toNat_lt
    rw [hholds.usedSize]
    have := (read_message hbytes).1
    omega
  refine ⟨msg, hok, hbytes, ?_, fun ops => ?_, coapCheckOption_value hok hholds hsize⟩
  · rw [deliveries_message hok hholds hsize none]
    exact List.filter_true _
  · rw [deliveries_message hok hholds hsize]
    refine List.filter_congr fun o _ => ?_
    rw [Bool.eq_iff_iff, decide_eq_true_eq]
    exact filterGet_iff (filterRun_refines filterHolds_clear ops).1 o.1

/-- A `GET` with a path of one letter. -/
def getA : List UInt8 := [0x40, 1, 0x12, 0x34, 0xb1, 0x61]

theorem handler_reads_getA : ∃ msg : Message, msg.Ok ∧
    ((Buf.write (fun _ => 0) 0 getA).read 0 6) = msg.bytes ∧
      ∀ type : UInt16, (coapCheckOption (coapRecv (Buf.write (fun _ => 0) 0 getA) 6).1 type).1.map
          (optValue (coapRecv (Buf.write (fun _ => 0) 0 getA) 6).1.mem) =
        (msg.numbers.find? fun o => o.1 = type).map Prod.snd := by
  obtain ⟨msg, hok, hbytes, -, -, hfind⟩ :=
    @handler_reads (Buf.write (fun _ => 0) 0 getA) 6 (by decide +kernel)
  exact ⟨msg, hok, hbytes, hfind⟩

/-- **Critical options.**  An accepted message passes the check exactly if each critical option of
it is known to `coap_option_check_critical` or in the filter of the known ones; the unknown ones
are put into the other filter in their order, as long as there is space. -/
theorem critical_options {mem : Buf} {len : UInt16} (h : (coapRecv mem len).2 = true)
    {known unknown : OptFilter} {k u : FilterSpec} (hk : FilterHolds known k)
    (hu : FilterHolds unknown u) :
    ∃ msg : Message, msg.Ok ∧ mem.read 0 len.toNat = msg.bytes ∧
      let result := coapOptionCheckCritical known (coapRecv mem len).1 unknown
      let refused := (msg.numbers.map Prod.fst).filter fun number =>
        number &&& 0x01 ≠ 0 ∧ number ∉ builtinCritical ∧ ¬ k.Has number
      (result.1 = true ↔ refused = []) ∧
        FilterHolds result.2 (u.run (refused.map fun number => (number, .set))).2 := by
  obtain ⟨msg, hok, hbytes⟩ := coapRecv_sound h
  have hholds := (coapRecv_message hok hbytes).2
  have hsame : (fun number => decide (number &&& 0x01 ≠ 0 ∧ number ∉ builtinCritical ∧
      ¬ k.Has number)) = unknownCritical known := by
    funext number
    rw [unknownCritical, Bool.eq_iff_iff, decide_eq_true_eq, decide_eq_true_eq, ← filterGet_iff hk,
      Bool.not_eq_true]
  refine ⟨msg, hok, hbytes, ?_⟩
  rw [coapOptionCheckCritical_message hok hholds]
  simp only [hsame]
  exact ⟨List.isEmpty_iff, (filterRun_refines hu _).1⟩

theorem critical_options_getA : ∃ msg : Message, msg.Ok ∧
    (Buf.write (fun _ => 0) 0 getA).read 0 6 = msg.bytes ∧
      ((coapOptionCheckCritical coapOptionFilterClear
        (coapRecv (Buf.write (fun _ => 0) 0 getA) 6).1 coapOptionFilterClear).1 = true ↔
          ((msg.numbers.map Prod.fst).filter fun number =>
            number &&& 0x01 ≠ 0 ∧ number ∉ builtinCritical ∧
              ¬ FilterSpec.Has ⟨∅, ∅⟩ number) = []) := by
  obtain ⟨msg, hok, hbytes, hpass, -⟩ :=
    @critical_options (Buf.write (fun _ => 0) 0 getA) 6 (by decide +kernel) _ _ _ _
      filterHolds_clear filterHolds_clear
  exact ⟨msg, hok, hbytes, hpass⟩

end XY1100.Coap
