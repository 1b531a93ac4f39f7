/-! Byte offsets in the transmitter's window, which holds the control block, the link, the
digital audio input, the serial audio input and the analogue part, and in the display top. -/
namespace Bringup.Link.Register

def interruptControl : Nat := 0x00000
def analogStatus : Nat := 0x00020

def linkBase : Nat := 0x10000

def control0 : Nat := linkBase + 0x000
def control1 : Nat := linkBase + 0x004
def control2 : Nat := linkBase + 0x008
def statusEnable : Nat := linkBase + 0x020
def hotPlug : Nat := linkBase + 0x030
def modeSelect : Nat := linkBase + 0x040

def blueScreenB0 : Nat := linkBase + 0x050
def blueScreenB1 : Nat := linkBase + 0x054
def blueScreenG0 : Nat := linkBase + 0x058
def blueScreenG1 : Nat := linkBase + 0x05C
def blueScreenR0 : Nat := linkBase + 0x060
def blueScreenR1 : Nat := linkBase + 0x064

def hBlank : Nat := linkBase + 0x0A0
def v2Blank : Nat := linkBase + 0x0B0
def v1Blank : Nat := linkBase + 0x0B8
def vLine : Nat := linkBase + 0x0C0
def hLine : Nat := linkBase + 0x0C8
def hSyncPolarity : Nat := linkBase + 0x0E0
def vSyncPolarity : Nat := linkBase + 0x0E4
def scanMode : Nat := linkBase + 0x0E8

def hSyncStart : Nat := linkBase + 0x170
def hSyncEnd : Nat := linkBase + 0x178
def vSyncBefore2 : Nat := linkBase + 0x180
def vSyncBefore1 : Nat := linkBase + 0x188
def vSyncAfter : Nat := linkBase + 0x190
def vSyncAfterPixel : Nat := linkBase + 0x1C0
def activeSpace : Nat := linkBase + 0x1F0

def colorMux : Nat := linkBase + 0x230
def syncMux : Nat := linkBase + 0x234
def sendStart0 : Nat := linkBase + 0x240
def sendStart1 : Nat := linkBase + 0x244
def sendEnd0 : Nat := linkBase + 0x248
def sendEnd1 : Nat := linkBase + 0x24C
def sendEnd2 : Nat := linkBase + 0x250
def deepColor : Nat := linkBase + 0x260
def patternGenerator : Nat := linkBase + 0x264

def clockControl : Nat := linkBase + 0x400
def clockN0 : Nat := linkBase + 0x430
def clockN1 : Nat := linkBase + 0x434
def clockN2 : Nat := linkBase + 0x438

def generalControl : Nat := linkBase + 0x500

def videoControl : Nat := linkBase + 0x700
def videoHeader : Nat := linkBase + 0x710
def videoChecksum : Nat := linkBase + 0x71C
def videoPayload : Nat := linkBase + 0x720

def audioControl : Nat := linkBase + 0x800
def audioHeader : Nat := linkBase + 0x810
def audioChecksum : Nat := linkBase + 0x81C
def audioPayload : Nat := linkBase + 0x820

def vendorControl : Nat := linkBase + 0xA00
def vendorHeader : Nat := linkBase + 0xA10
def vendorChecksum : Nat := linkBase + 0xA20
def vendorPayload : Nat := linkBase + 0xA24

def digitalBase : Nat := 0x30000

def digitalClock : Nat := digitalBase + 0x000
def digitalOperation : Nat := digitalBase + 0x004
def digitalConfig1 : Nat := digitalBase + 0x010
def digitalConfig2 : Nat := digitalBase + 0x014
def digitalUser1 : Nat := digitalBase + 0x020
def digitalUser2 : Nat := digitalBase + 0x024
def digitalUser3 : Nat := digitalBase + 0x028
def digitalUser4 : Nat := digitalBase + 0x02C

def serialBase : Nat := 0x40000

def serialClock : Nat := serialBase + 0x000
def serialMux : Nat := serialBase + 0x048
def serialChannels : Nat := serialBase + 0x04C
def serialUser : Nat := serialBase + 0x050

def analogBase : Nat := 0x50000

def analogFirst : Nat := analogBase + 0x04
def analogPower : Nat := analogBase + 0x24
def analogMode : Nat := analogBase + 0x7C

/-- In the display top: which source feeds the link, and its sync generator. -/
def sourceMux : Nat := 0x10
def syncControl0 : Nat := 0x140
def syncControl1 : Nat := 0x144
def syncControl2 : Nat := 0x148

end Bringup.Link.Register
