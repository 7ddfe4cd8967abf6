import BoardComm.TransportIo

/-!
# The UART transport

A serial device that is reopened by a timer after it was lost. An RS-485 adapter
sends and receives in turns: its direction pin is set before the first byte is
written and reset when nothing waits any more.
-/
namespace BoardComm

open SendQueue (writeAll)

abbrev bcUartSendCap : ℕ := bcMaxFrameLen * 8

inductive BcUartMode
  | rs232
  | rs485
  deriving DecidableEq, Repr

/-- `bc_uart_impl_t` with the descriptor of the transport. The queue fields are
those of the link. -/
structure UartImpl where
  fd : ℤ
  mode : BcUartMode
  deTxActive : Bool
  reopenArmed : Bool
  retryAttempt : ℕ
  opened : Bool
  link : SendQueue.Link
  deriving DecidableEq, Repr

/-- `uart_rs485_tx_enable`. Setting the pin succeeds when there is none. -/
def uartRs485TxEnable (gpio : Bool) (impl : UartImpl) : BcStatus × UartImpl :=
  if impl.mode ≠ .rs485 ∨ impl.deTxActive = true then (.ok, impl)
  else if gpio = false then (.io, impl)
  else (.ok, { impl with deTxActive := true })

/-- `uart_rs485_tx_disable`. -/
def uartRs485TxDisable (impl : UartImpl) : UartImpl :=
  if impl.mode ≠ .rs485 ∨ impl.deTxActive = false then impl
  else { impl with deTxActive := false }

/-- `uart_device_close`. The queue is kept for the next device. -/
def uartDeviceClose (impl : UartImpl) : UartImpl :=
  { uartRs485TxDisable impl with fd := -1, opened := false }

/-- `uart_schedule_reopen`. -/
def uartScheduleReopen (impl : UartImpl) : UartImpl :=
  let impl := uartDeviceClose impl
  { impl with reopenArmed := true, retryAttempt := impl.retryAttempt + 1 }

/-- `uart_flush_send`. -/
def uartFlushSend (io : IoAnswers) (impl : UartImpl) : BcStatus × UartImpl :=
  if impl.opened = false ∨ impl.fd < 0 then (.io, impl)
  else
    let (rc, impl) := if impl.link.off < impl.link.stored.length then uartRs485TxEnable io.gpio impl
      else (.ok, impl)
    if rc ≠ .ok then (.io, impl)
    else
      let (exit, link) := impl.link.flush io.writes
      let impl := { impl with link := link }
      match exit with
      | .done => (watchStatus io.watch, uartRs485TxDisable impl)
      | .blocked => (watchStatus io.watch, impl)
      | .failed => (.io, uartScheduleReopen impl)

/-- `uart_queue_send`. -/
def uartQueueSend (io : IoAnswers) (impl : UartImpl) (data : List UInt8) : BcStatus × UartImpl :=
  if impl.opened = false then (.io, impl)
  else
    match impl.link.queue bcUartSendCap io.alloc data with
    | none => (.nomem, impl)
    | some link => (watchStatus io.watch, { impl with link := link })

/-- `uart_send`. -/
def uartSend (io : IoAnswers) (impl : UartImpl) (data : List UInt8) : BcStatus × UartImpl :=
  if impl.opened = false ∨ impl.fd < 0 then (.io, impl)
  else if impl.link.off < impl.link.stored.length then uartQueueSend io impl data
  else
    match uartRs485TxEnable io.gpio impl with
    | (.ok, impl) =>
      let (r, link) := impl.link.write io.writes data
      let impl := { impl with link := link }
      match r.exit with
      | .done => (.ok, uartRs485TxDisable impl)
      | .blocked => uartQueueSend io impl r.rest
      | .failed => (.io, uartScheduleReopen impl)
    | (_, impl) => (.io, impl)

end BoardComm
