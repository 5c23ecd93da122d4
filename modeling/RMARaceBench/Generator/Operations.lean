import Mathlib.Data.List.Basic

/-!
# The operation registry

`Model`, `Operation` and `om` of `generate.py`. An operation is kept with the name under which it is
registered: two registered operations are different objects also where all their other fields agree
(`get` and `get_remote` of SHMEM).
-/

set_option autoImplicit false

namespace Generator

inductive Model
  | MPIRMA | SHMEM | GASPI
  deriving DecidableEq, Repr

structure Operation where
  /-- The key in `operations[model]`. -/
  key : String
  /-- `opname`, the short name. -/
  name : String
  callname : String
  localOpkind : String
  remoteOpkind : String
  code : String
  additionalDeclarations : String
  deriving DecidableEq, Repr

/-- `OperationManager.add`, for one model. -/
def add (key name callname localOpkind remoteOpkind code : String)
    (additionalDeclarations : String := "") : Operation :=
  ⟨key, name, callname, localOpkind, remoteOpkind, code, additionalDeclarations⟩

def mpirmaOperations : List Operation :=
  [add "local_load" "load" "LOAD" "load" "load"
      "printf(\"value is %d\\n\", value);",
    add "local_store" "store" "STORE" "store" "store"
      "value = 42;",
    add "put" "put" "MPI_Put" "local buffer read" "rma write"
      "MPI_Put(&value, 1, MPI_INT, 1, 0, 1, MPI_INT, win);",
    add "put2" "put" "MPI_Put" "local buffer read" "rma write"
      "MPI_Put(&value, 1, MPI_INT, 1, 1, 1, MPI_INT, win);",
    add "acc" "acc" "MPI_Accumulate" "local buffer read" "rma atomic write"
      "MPI_Accumulate(&value, 1, MPI_INT, 1, 0, 1, MPI_INT, MPI_SUM, win);",
    add "acc2" "acc" "MPI_Accumulate" "local buffer read" "rma atomic write"
      "MPI_Accumulate(&value, 1, MPI_INT, 1, 1, 1, MPI_INT, MPI_SUM, win);",
    add "get" "get" "MPI_Get" "local buffer write" "rma read"
      "MPI_Get(&value, 1, MPI_INT, 1, 0, 1, MPI_INT, win);",
    add "remote_load" "load" "LOAD" "load" "load"
      "printf(\"win_base[0] is %d\\n\", win_base[0]);",
    add "remote_store" "store" "STORE" "store" "store"
      "win_base[0] = 42;",
    add "rget" "rget" "MPI_Rget" "local buffer write" "rma read"
      "MPI_Rget(&value, 1, MPI_INT, 1, 0, 1, MPI_INT, win, &req);",
    add "rput" "rput" "MPI_Rput" "local buffer read" "rma write"
      "MPI_Rput(&value, 1, MPI_INT, 1, 0, 1, MPI_INT, win, &req);",
    add "gacc1" "gacc" "MPI_Get_accumulate" "local buffer read" "rma atomic write"
      ("MPI_Get_accumulate(&value, 1, MPI_INT, &value2, 1, MPI_INT, 1, 0, 1, MPI_INT, MPI_SUM, " ++
        "win);"),
    add "gacc2" "gacc" "MPI_Get_accumulate" "local buffer write" "rma atomic write"
      ("MPI_Get_accumulate(&value2, 1, MPI_INT, &value, 1, MPI_INT, 1, 0, 1, MPI_INT, MPI_SUM, " ++
        "win);"),
    add "gaccread" "gaccread" "MPI_Get_accumulate" "local buffer write" "rma atomic read"
      ("MPI_Get_accumulate(NULL, 0, MPI_DATATYPE_NULL, &value, 1, MPI_INT, 1, 0, 1, MPI_INT, " ++
        "MPI_NO_OP, win);"),
    add "fop1" "fop" "MPI_Fetch_and_op" "local buffer read" "rma atomic write"
      "MPI_Fetch_and_op(&value, &value2, MPI_INT, 1, 0, MPI_SUM, win);",
    add "fop2" "fop" "MPI_Fetch_and_op" "local buffer write" "rma atomic write"
      "MPI_Fetch_and_op(&value2, &value, MPI_INT, 1, 0, MPI_SUM, win);",
    add "cas1" "cas" "MPI_Compare_and_swap" "local buffer read" "rma atomic write"
      "MPI_Compare_and_swap(&value, &win_base[0], &value2, MPI_INT, 1, 0, win);",
    add "cas2" "cas" "MPI_Compare_and_swap" "local buffer write" "rma atomic write"
      "MPI_Compare_and_swap(&value2, &win_base[0], &value, MPI_INT, 1, 0, win);"]

def shmemOperations : List Operation :=
  [add "local_load" "load" "LOAD" "load" "load"
      "printf(\"localbuf is %d\\n\", localbuf);",
    add "local_store" "store" "STORE" "store" "store"
      "localbuf = 42;",
    add "putnbi" "putnbi" "shmem_int_put_nbi" "local buffer read" "rma write"
      "shmem_int_put_nbi(&remote, &localbuf, 1, 1);",
    add "putnbi2" "putnbi" "shmem_int_put_nbi" "local buffer read" "rma write"
      "shmem_int_put_nbi(&remote, &localbuf, 1, 0);",
    add "put" "put" "shmem_int_put" "local buffer read" "rma write"
      "shmem_int_put(&remote, &localbuf, 1, 1);",
    add "atomicset" "atomicset" "shmem_int_atomic_set" "local buffer read" "rma atomic write"
      "shmem_int_atomic_set(&remote, 1, 1);",
    add "atomicfetch" "atomicfetch" "shmem_int_atomic_fetch" "local buffer write" "rma atomic read"
      "localbuf = shmem_int_atomic_fetch(&remote, 1);",
    add "atomicfetchinc" "atomicfetchinc" "shmem_int_atomic_fetch"
      "local buffer write" "rma atomic write"
      "localbuf = shmem_int_atomic_fetch_inc(&remote, 1);",
    add "atomicfetchincnbi" "atomicfetchincnbi" "shmem_int_atomic_fetch_inc_nbi"
      "local buffer write" "rma atomic write"
      "shmem_int_atomic_fetch_inc_nbi(&localbuf, &remote, 1);",
    add "atomicfetchnbi" "atomicfetchnbi" "shmem_int_atomic_fetch"
      "local buffer write" "rma atomic read"
      "shmem_int_atomic_fetch_nbi(&localbuf, &remote, 1);",
    add "atomiccompareswap" "atomiccompareswap" "shmem_int_compare_swap"
      "local buffer write" "rma atomic write"
      "localbuf = shmem_int_atomic_compare_swap(&remote, 42, 1, 1);",
    add "atomiccompareswapnbi" "atomiccompareswapnbi" "shmem_int_compare_swap_nbi"
      "local buffer write" "rma atomic write"
      "shmem_int_atomic_compare_swap_nbi(&localbuf, &remote, 42, 1, 1);",
    add "getnbi" "getnbi" "shmem_int_get_nbi" "local buffer write" "rma read"
      "shmem_int_get_nbi(&localbuf, &remote, 1, 1);",
    add "get" "get" "shmem_int_get" "local buffer write" "rma read"
      "shmem_int_get(&localbuf, &remote, 1, 1);",
    add "remote_load" "load" "LOAD" "load" "load"
      "printf(\"remote is %d\", remote);",
    add "remote_store" "store" "STORE" "store" "store"
      "remote = 42;",
    add "put_remote" "put" "shmem_int_put" "local buffer read" "rma write"
      "int myval = 42;\nshmem_int_put(&remote, &myval, 1, 1);",
    add "get_remote" "get" "shmem_int_get" "local buffer write" "rma read"
      "shmem_int_get(&localbuf, &remote, 1, 1);",
    add "put_signal" "put_signal" "shmem_int_put_signal" "local buffer read" "rma write"
      "shmem_int_put_signal(&remote, &localbuf, 1, &ps_sig_addr, 1, SHMEM_SIGNAL_SET, 1);"
      "static uint64_t ps_sig_addr = 0;",
    add "put_signal2" "put_signal" "shmem_int_put_signal" "local buffer read" "rma write"
      "shmem_int_put_signal(&remote, &localbuf, 1, &ps_sig_addr2, 1, SHMEM_SIGNAL_SET, 1);"
      "static uint64_t ps_sig_addr2 = 0;",
    add "put_signal_nbi" "put_signal_nbi" "shmem_int_put_signal_nbi" "local buffer read" "rma write"
      "shmem_int_put_signal_nbi(&remote, &localbuf, 1, &psn_sig_addr, 1, SHMEM_SIGNAL_SET, 1);"
      "static uint64_t psn_sig_addr = 0;",
    add "p" "p" "shmem_int_p" "" "rma write"
      "shmem_int_p(&remote, 42, 1);",
    add "g" "g" "shmem_int_g" "" "rma read"
      "localbuf = shmem_int_g(&remote, 1);",
    add "iput" "iput" "shmem_int_iput" "local buffer read" "rma write"
      "shmem_int_iput(&remote, &localbuf, 1, 1, 1, 1);",
    add "iget" "iget" "shmem_int_iget" "local buffer write" "rma read"
      "shmem_int_iget(&localbuf, &remote, 1, 1, 1, 1);"]

def gaspiOperations : List Operation :=
  [add "local_load" "load" "LOAD" "load" "load"
      "printf(\"localbuf[0] is %d\\n\", localbuf[0]);",
    add "local_store" "store" "STORE" "store" "store"
      "localbuf[0] = 42;",
    add "remote_load" "load" "LOAD" "load" "load"
      "printf(\"remote_data[0] is %d\\n\", remote_data[0]);",
    add "remote_store" "store" "STORE" "store" "store"
      "remote_data[0] = 42;",
    add "write" "write" "gaspi_write" "local buffer read" "rma write"
      "gaspi_write(loc_seg_id, 0, 1, remote_seg_id, 0, sizeof(int), queue_id, GASPI_BLOCK);",
    add "write2" "write" "gaspi_write" "local buffer read" "rma write"
      "gaspi_write(loc_seg_id, 0, 0, remote_seg_id, 0, sizeof(int), queue_id, GASPI_BLOCK);",
    add "read" "read" "gaspi_read" "local buffer write" "rma read"
      "gaspi_read(loc_seg_id, 0, 1, remote_seg_id, 0, sizeof(int), queue_id, GASPI_BLOCK);",
    add "fetchadd" "fetchadd" "gaspi_atomic_fetch_add" "local buffer write" "rma atomic write"
      "gaspi_atomic_fetch_add(remote_seg_id, 0, 1, 1, &localbuf[0], GASPI_BLOCK);",
    add "write_list" "write_list" "gaspi_write_list" "local buffer read" "rma write"
      ("gaspi_write_list(1, &loc_seg_id, (gaspi_offset_t[]) \x7b0\x7d, 1, &remote_seg_id, " ++
        "(gaspi_offset_t[]) \x7b0\x7d, (gaspi_size_t[]) \x7bsizeof(int)\x7d, queue_id, " ++
        "GASPI_BLOCK);"),
    add "read_list" "read_list" "gaspi_read_list" "local buffer write" "rma read"
      ("gaspi_read_list(1, &loc_seg_id, (gaspi_offset_t[]) \x7b0\x7d, 1, &remote_seg_id, " ++
        "(gaspi_offset_t[]) \x7b0\x7d, (gaspi_size_t[]) \x7bsizeof(int)\x7d, queue_id, " ++
        "GASPI_BLOCK);"),
    add "write_list_notify" "write_list_notify" "gaspi_write_list_notify"
      "local buffer read" "rma write"
      ("gaspi_write_list_notify(1, &loc_seg_id, (gaspi_offset_t[]) \x7b0\x7d, 1, &remote_seg_id, " ++
        "(gaspi_offset_t[]) \x7b0\x7d, (gaspi_size_t[]) \x7bsizeof(int)\x7d, remote_seg_id, 0, 1, " ++
        "queue_id, GASPI_BLOCK);"),
    add "read_list_notify" "read_list_notify" "gaspi_read_list_notiy"
      "local buffer write" "rma read"
      ("gaspi_read_list_notify(1, &loc_seg_id, (gaspi_offset_t[]) \x7b0\x7d, 1, &remote_seg_id, " ++
        "(gaspi_offset_t[]) \x7b0\x7d, (gaspi_size_t[]) \x7bsizeof(int)\x7d, remote_seg_id, 0, " ++
        "queue_id, GASPI_BLOCK);"),
    add "write_notify" "write_notify" "gaspi_write_notify" "local buffer read" "rma write"
      ("gaspi_write_notify(loc_seg_id, 0, 1, remote_seg_id, 0, sizeof(int), 0, 1, queue_id, " ++
        "GASPI_BLOCK);"),
    add "read_notify" "read_notify" "gaspi_read_notify" "local buffer write" "rma read"
      ("gaspi_read_notify(loc_seg_id, 0, 1, remote_seg_id, 0, sizeof(int), 0, queue_id, " ++
        "GASPI_BLOCK);")]

namespace Model

/-- `om.operations[model]`. -/
def operations : Model → List Operation
  | MPIRMA => mpirmaOperations
  | SHMEM => shmemOperations
  | GASPI => gaspiOperations

/-- `om.get(model, name)`. -/
def get (m : Model) (key : String) : Option Operation :=
  m.operations.find? fun o => o.key == key

end Model

end Generator
