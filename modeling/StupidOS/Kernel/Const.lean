import StupidOS.Lib.Word

/-!
# Constants of the kernel (`const.inc`, `errno.inc`)
-/

namespace StupidOS.Kernel

def pageSize : Word := 0x1000

def kernelVirtBase : Word := 0xC0000000

def enomem : Word := 20

def cr : Byte := 0x0D

def lf : Byte := 0x0A

end StupidOS.Kernel
